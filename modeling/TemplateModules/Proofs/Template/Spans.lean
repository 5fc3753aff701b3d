import Mathlib.Tactic.Common
import TemplateModules.Proofs.Source.Place
import TemplateModules.Template.Block

/-!
# Spans of tags

Each tag of a source is read at opening braces, and its span starts there.
-/

namespace TemplateModules
namespace Template

open Text

/-- A span starts at opening braces of a source, whose place is given. -/
def OpensAt (source : List Char) (span : Span) (place : Place) : Prop :=
  ∃ before rest,
    source = before ++ openBraces ++ rest ∧
    span.start = byteSize before ∧
    place = Place.after before

/-- A span says where it starts: lines count from one, columns from zero. -/
def WellPlaced (source : List Char) (span : Span) : Prop :=
  ∃ place, OpensAt source span place ∧ span.line = place.line + 1 ∧ span.column = place.column

/-- The span from opening braces of a source on is well placed. -/
theorem wellPlaced_between {source rest : List Char} (after : List Char)
    (h : openBraces ++ rest <:+ source) :
    WellPlaced source ((LineIndex.ofSource source).between (openBraces ++ rest) after) := by
  obtain ⟨before, hsource⟩ := h
  have hoffset : (LineIndex.ofSource source).offsetOf (openBraces ++ rest) = byteSize before := by
    rw [LineIndex.offsetOf, ← hsource]
    simp [LineIndex.ofSource]
  have hlocate := LineIndex.locate_byteSize before (openBraces ++ rest)
  rw [hsource] at hlocate
  refine ⟨Place.after before, ⟨before, rest, ?_, ?_, rfl⟩, ?_, ?_⟩
  · rw [← hsource, List.append_assoc]
  · exact hoffset
  · rw [LineIndex.between, hoffset]
    exact congrArg Prod.fst hlocate
  · rw [LineIndex.between, hoffset]
    exact congrArg Prod.snd hlocate

/-! ## Scanning -/

theorem skip_suffix (mark : Char) (cs : List Char) : (skip mark cs).2 <:+ cs := by
  cases cs with
  | nil => exact List.suffix_refl _
  | cons c cs =>
      rw [skip]
      split
      · exact List.suffix_cons c cs
      · exact List.suffix_refl _

theorem sigil_suffix (cs : List Char) : (sigil cs).2 <:+ cs := by
  unfold sigil
  split
  · exact List.suffix_cons _ _
  · exact List.suffix_cons _ _
  · exact List.suffix_cons _ _
  · exact List.suffix_cons _ _
  · exact List.suffix_cons _ _
  · exact List.suffix_refl _

theorem cut_suffix {mark cs before rest : List Char} (h : cut mark cs = some (before, rest)) :
    rest <:+ cs :=
  ⟨before ++ mark, (eq_append_of_cut h).symm⟩

theorem after?_suffix {lead cs rest : List Char} (h : after? lead cs = some rest) : rest <:+ cs :=
  ⟨lead, (eq_append_of_after? h).symm⟩

/-- A long comment ends at two hyphens, perhaps a tilde, and closing braces. -/
theorem closeLongComment_eq
    {inside text rest : List Char} {tilde : Bool}
    (h : closeLongComment inside = some (text, tilde, rest)) :
    inside = text ++ ['-', '-'] ++ (if tilde then ['~'] else []) ++ closeBraces ++ rest := by
  induction inside generalizing text with
  | nil => simp [closeLongComment] at h
  | cons c cs ih =>
      rw [closeLongComment] at h
      split at h
      · next r hr =>
          cases h
          exact eq_append_of_after? hr
      · split at h
        · next r hr =>
            cases h
            exact eq_append_of_after? hr
        · simp only [Option.map_eq_some_iff, Prod.mk.injEq, Prod.exists] at h
          obtain ⟨t, b, r, htail, rfl, rfl, rfl⟩ := h
          rw [ih htail]
          simp only [List.cons_append]

theorem closeComment_suffix
    {inside text rest : List Char} {tilde : Bool}
    (h : closeComment inside = some (text, tilde, rest)) :
    rest <:+ inside := by
  unfold closeComment at h
  split at h
  · next long hlong =>
    refine List.IsSuffix.trans ?_ (after?_suffix hlong)
    rw [closeLongComment_eq h]
    exact List.suffix_append _ rest
  · simp only [Option.map_eq_some_iff, Prod.mk.injEq, Prod.exists] at h
    obtain ⟨t, r, hcut, -, -, rfl⟩ := h
    exact cut_suffix hcut

/-- The source goes on behind a tag, whose span starts at its braces. -/
theorem readTag_span
    {index : LineIndex} {rest after : List Char} {tag : Tag}
    (h : readTag index rest = .ok (tag, after)) :
    after <:+ rest ∧ tag.span = index.between (openBraces ++ rest) after := by
  unfold readTag at h
  simp only at h
  split at h
  · simp at h
  · have hskipped : (skip '~' (skip '\x7b' rest).2).2 <:+ rest :=
      (skip_suffix '~' _).trans (skip_suffix '\x7b' rest)
    split at h
    · next inside hinside =>
        split at h
        · simp at h
        · next text tilde later hclose =>
            simp only [Except.ok.injEq, Prod.mk.injEq] at h
            obtain ⟨rfl, rfl⟩ := h
            rw [hinside] at hskipped
            exact ⟨((closeComment_suffix hclose).trans (List.suffix_cons _ _)).trans hskipped, rfl⟩
    · split at h
      · simp at h
      · next inside later hcut =>
          have hsigil :
              (if (skip '\x7b' rest).1 = true then
                (TagKind.unescaped, (skip '~' (skip '\x7b' rest).2).2)
              else sigil (skip '~' (skip '\x7b' rest).2).2).2 <:+
                (skip '~' (skip '\x7b' rest).2).2 := by
            split
            · exact List.suffix_refl _
            · exact sigil_suffix _
          split at h
          · simp at h
          · split at h
            · simp at h
            · simp only [Except.ok.injEq, Prod.mk.injEq] at h
              obtain ⟨rfl, rfl⟩ := h
              exact ⟨((cut_suffix hcut).trans hsigil).trans hskipped, rfl⟩

/-- A stretch of content leads up to opening braces. -/
theorem stretch_suffix
    {source text rest : List Char} (h : stretch source = .upTo text rest) :
    openBraces ++ rest <:+ source := by
  unfold stretch at h
  split at h
  · simp at h
  · next before tail hcut =>
      have hsuffix : openBraces ++ tail <:+ source :=
        ⟨before, by rw [eq_append_of_cut hcut, List.append_assoc]⟩
      split at h
      · simp only [Stretch.upTo.injEq] at h
        rw [← h.2]
        exact hsuffix
      · simp only at h
        split at h
        · simp at h
        · next inner later hlater =>
            split at h
            · simp at h
            · simp only [Stretch.upTo.injEq] at h
              have hinner : openBraces ++ later <:+ tail :=
                ⟨inner, by rw [eq_append_of_cut hlater, List.append_assoc]⟩
              rw [← h.2]
              exact (hinner.trans (List.suffix_append _ _)).trans hsuffix
      · simp only [Stretch.upTo.injEq] at h
        rw [← h.2]
        exact hsuffix

theorem tag_notMem_contentToken
    {index : LineIndex} {text opening after : List Char} {tag : Tag} :
    Token.tag tag ∉ contentToken index text opening after := by
  unfold contentToken
  split <;> simp

/-- Each tag of a part of a source is read at opening braces of the source. -/
theorem exists_readTag_of_mem_scanFrom
    {source part : List Char} {tokens : List Token} {tag : Tag}
    (h : scanFrom (LineIndex.ofSource source) part = .ok tokens) (hpart : part <:+ source)
    (htag : Token.tag tag ∈ tokens) :
    ∃ rest after, openBraces ++ rest <:+ source ∧
      readTag (LineIndex.ofSource source) rest = .ok (tag, after) := by
  fun_induction scanFrom (LineIndex.ofSource source) part generalizing tokens with
  | case1 => cases h
  | case2 part text hstretch =>
      obtain rfl := Except.ok.inj h
      exact absurd htag tag_notMem_contentToken
  | case3 => cases h
  | case4 => cases h
  | case5 part text rest hstretch first after hfirst _ _ later hlater ih =>
      obtain rfl := Except.ok.inj h
      obtain ⟨hafter, -⟩ := readTag_span hfirst
      have hrest := (stretch_suffix hstretch).trans hpart
      rcases List.mem_append.mp htag with htag | htag
      · exact absurd htag tag_notMem_contentToken
      · rcases List.mem_cons.mp htag with heq | htag
        · obtain rfl := Token.tag.inj heq
          exact ⟨rest, after, hrest, hfirst⟩
        · exact ih hlater ((hafter.trans (List.suffix_append _ _)).trans hrest) htag

theorem mem_of_mem_trimTokens
    {stripped : Bool} {tokens : List Token} {tag : Tag}
    (h : Token.tag tag ∈ trimTokens stripped tokens) :
    Token.tag tag ∈ tokens := by
  fun_induction trimTokens stripped tokens with
  | case1 => exact h
  | case2 stripped first tokens ih =>
      rcases List.mem_cons.mp h with heq | h
      · rw [heq]
        exact List.mem_cons_self
      · exact List.mem_cons_of_mem _ (ih h)
  | case3 stripped tokens text span _ _ _ _ ih => exact List.mem_cons_of_mem _ (ih h)
  | case4 stripped tokens text span _ _ _ _ ih =>
      rcases List.mem_cons.mp h with heq | h
      · cases heq
      · exact List.mem_cons_of_mem _ (ih h)

/-- Each tag of a template is read at opening braces of its source. -/
theorem exists_readTag_of_mem_scan
    {source : String} {tokens : List Token} {tag : Tag}
    (h : scan source = .ok tokens) (htag : Token.tag tag ∈ tokens) :
    ∃ rest after, openBraces ++ rest <:+ source.toList ∧
      readTag (LineIndex.ofSource source.toList) rest = .ok (tag, after) := by
  unfold scan at h
  split at h
  · cases h
  · next found hfound =>
      obtain rfl := Except.ok.inj h
      exact exists_readTag_of_mem_scanFrom hfound (List.suffix_refl _) (mem_of_mem_trimTokens htag)

theorem wellPlaced_of_mem_scan
    {source : String} {tokens : List Token} {tag : Tag}
    (h : scan source = .ok tokens) (htag : Token.tag tag ∈ tokens) :
    WellPlaced source.toList tag.span := by
  obtain ⟨rest, after, hrest, hread⟩ := exists_readTag_of_mem_scan h htag
  rw [(readTag_span hread).2]
  exact wellPlaced_between after hrest

/-! ## Statements -/

/-- The span of the tag of a statement that is neither content nor a comment. -/
def Statement.span? : Statement → Option Span
  | content _ => none
  | comment _ => none
  | mustache _ _ span => some span
  | block _ _ _ span => some span
  | inclusion _ _ _ span => some span

end Template
end TemplateModules
