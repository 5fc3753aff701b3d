import Mathlib.Data.List.Basic
import Mathlib.Data.List.TakeWhile
import TemplateModules.Proofs.Template.Spans

/-!
# Pieces of a source

The scanner takes a source apart from its start.  A stretch of content is the slice up to the next
tag without the backslashes that protect something, and a tag is a slice between braces.
-/

namespace TemplateModules
namespace Text

/-- A cut is made where the mark stands first. -/
theorem length_le_of_cut
    {mark cs before rest lead tail : List Char}
    (h : cut mark cs = some (before, rest)) (hcs : cs = lead ++ mark ++ tail) :
    before.length ≤ lead.length := by
  induction cs generalizing before lead with
  | nil =>
      simp only [cut, Option.map_eq_some_iff, Prod.mk.injEq] at h
      obtain ⟨-, -, rfl, -⟩ := h
      exact Nat.zero_le _
  | cons c cs ih =>
      rw [cut] at h
      split at h
      · obtain ⟨rfl, -⟩ := Prod.mk.inj (Option.some.inj h)
        exact Nat.zero_le _
      · next hnone =>
          simp only [Option.map_eq_some_iff, Prod.mk.injEq, Prod.exists] at h
          obtain ⟨inner, later, hcut, rfl, rfl⟩ := h
          cases lead with
          | nil =>
              rw [hcs, List.nil_append, after?_append] at hnone
              contradiction
          | cons l lead =>
              obtain ⟨-, hcs⟩ := List.cons.inj hcs
              exact Nat.succ_le_succ (ih hcut hcs)

/-- Where no cut is made, the mark does not stand. -/
theorem not_isInfix_of_cut_eq_none {mark cs : List Char} (h : cut mark cs = none) :
    ¬ mark <:+: cs := by
  induction cs with
  | nil =>
      rintro ⟨lead, tail, hcs⟩
      obtain ⟨-, rfl, -⟩ := by simpa using hcs
      simp [cut, after?] at h
  | cons c cs ih =>
      rw [cut] at h
      split at h
      · contradiction
      · next hnone =>
          rw [Option.map_eq_none_iff] at h
          rw [List.infix_cons_iff]
          rintro (⟨tail, hcs⟩ | hlater)
          · rw [← hcs, after?_append] at hnone
            contradiction
          · exact ih h hlater

/-- The mark does not stand before the place where a cut is made. -/
theorem not_isInfix_of_cut
    {mark cs before rest : List Char} (h : cut mark cs = some (before, rest)) (hmark : mark ≠ []) :
    ¬ mark <:+: before := by
  rintro ⟨lead, tail, hbefore⟩
  have hcs : cs = lead ++ mark ++ (tail ++ mark ++ rest) := by
    rw [eq_append_of_cut h, ← hbefore]
    simp only [List.append_assoc]
  have hle := length_le_of_cut h hcs
  rw [← hbefore] at hle
  simp only [List.length_append] at hle
  have hpos := List.length_pos_iff.mpr hmark
  omega

end Text

namespace Template

open Text

/-! ## Content -/

/-- The content that a slice of a source stands for.  The backslash of escaped braces is left out.
The flag says that a backslash stands in front, so that the next one escapes nothing. -/
def unescape : Bool → List Char → List Char
  | _, [] => []
  | behind, c :: cs =>
      if c = '\\' ∧ behind = false ∧ (after? openBraces cs).isSome then unescape false cs
      else c :: unescape (c = '\\') cs

theorem isSome_after?_of_not_isInfix {cs : List Char} (h : ¬ openBraces <:+: cs) :
    (after? openBraces cs).isSome = false := by
  cases hafter : after? openBraces cs with
  | none => rfl
  | some rest =>
      rw [eq_append_of_after? hafter] at h
      exact absurd (List.prefix_append _ _).isInfix h

/-- Braces do not reach over a backslash. -/
theorem isSome_after?_append_backslash (front tail : List Char) :
    (after? openBraces (front ++ '\\' :: tail)).isSome = (after? openBraces front).isSome := by
  match front with
  | [] => rfl
  | [c] =>
      by_cases hc : '\x7b' = c
      · simp [openBraces, after?]
      · simp [openBraces, after?, hc]
  | c :: d :: front =>
      simp only [openBraces, after?, List.cons_append]
      split
      · split
        · rfl
        · rfl
      · rfl

theorem unescape_of_not_isInfix
    {behind : Bool} {cs : List Char} (h : ¬ openBraces <:+: cs) : unescape behind cs = cs := by
  induction cs generalizing behind with
  | nil => rfl
  | cons c cs ih =>
      rw [List.infix_cons_iff, not_or] at h
      rw [unescape, isSome_after?_of_not_isInfix h.2, if_neg (by simp), ih h.2]

/-- A backslash that is not escaped itself is left out in front of braces. -/
theorem unescape_escaped
    {behind : Bool} {front inner : List Char}
    (hfront : ¬ openBraces <:+: front) (hinner : ¬ openBraces <:+: inner)
    (hlast : front.getLast? ≠ some '\\') (hbehind : front = [] → behind = false) :
    unescape behind (front ++ '\\' :: (openBraces ++ inner)) = front ++ (openBraces ++ inner) := by
  induction front generalizing behind with
  | nil =>
      rw [hbehind rfl]
      simp [unescape, openBraces, after?, unescape_of_not_isInfix hinner]
  | cons c front ih =>
      rw [List.infix_cons_iff, not_or] at hfront
      rw [List.cons_append, unescape, isSome_after?_append_backslash,
        isSome_after?_of_not_isInfix hfront.2, if_neg (by simp), ih hfront.2]
      · rfl
      · intro hfront'
        rw [List.getLast?_cons, hfront'] at hlast
        exact hlast rfl
      · rintro rfl
        simpa using hlast

/-- Two backslashes at the end stay. -/
theorem unescape_backslashes (behind : Bool) (front : List Char) :
    unescape behind (front ++ ['\\', '\\']) = unescape behind front ++ ['\\', '\\'] := by
  induction front generalizing behind with
  | nil => cases behind <;> rfl
  | cons c front ih =>
      rw [List.cons_append, unescape, unescape, isSome_after?_append_backslash]
      split
      · exact ih false
      · rw [ih]
        rfl

/-- Only backslashes are left out. -/
theorem mem_unescape {behind : Bool} {cs : List Char} {c : Char} (h : c ∈ cs) (hc : c ≠ '\\') :
    c ∈ unescape behind cs := by
  induction cs generalizing behind with
  | nil => contradiction
  | cons d cs ih =>
      rw [unescape]
      rcases List.mem_cons.mp h with rfl | h
      · rw [if_neg fun hd => hc hd.1]
        exact List.mem_cons_self
      · split
        · exact ih h
        · exact List.mem_cons_of_mem _ (ih h)

/-- The text of a content before blanks are removed.  Of two backslashes in front of a tag one is
left out. -/
def contentText (tagFollows : Bool) (slice : List Char) : List Char :=
  if tagFollows = true ∧ ['\\', '\\'] <:+ slice then (unescape false slice).dropLast
  else unescape false slice

theorem contentText_last (slice : List Char) : contentText false slice = unescape false slice := by
  rw [contentText, if_neg fun h => Bool.noConfusion h.1]

theorem getLast?_of_backslashes {cs : List Char} (h : ['\\', '\\'] <:+ cs) :
    cs.getLast? = some '\\' := by
  obtain ⟨front, rfl⟩ := h
  simp

/-- Braces after one backslash stand for themselves. -/
theorem unescape_of_stretch
    {before tail inner : List Char}
    (hbefore : before.reverse = '\\' :: tail) (htail : ∀ more, tail ≠ '\\' :: more)
    (hfree : ¬ openBraces <:+: before) (hinner : ¬ openBraces <:+: inner) :
    unescape false (before ++ openBraces ++ inner) = before.dropLast ++ openBraces ++ inner := by
  obtain rfl : before = tail.reverse ++ ['\\'] := by
    rw [← List.reverse_reverse before, hbefore, List.reverse_cons]
  have hfront : ¬ openBraces <:+: tail.reverse := fun h =>
    hfree (h.trans (List.prefix_append _ _).isInfix)
  have hlast : tail.reverse.getLast? ≠ some '\\' := by
    rw [List.getLast?_reverse]
    intro hhead
    obtain ⟨more, rfl⟩ := List.head?_eq_some_iff.mp hhead
    exact htail more rfl
  rw [List.dropLast_concat, List.append_assoc, List.append_assoc, List.append_assoc]
  exact unescape_escaped hfront hinner hlast fun _ => rfl

/-- What is left of a source without further tags is a content. -/
theorem eq_contentText_of_last {source text : List Char} (h : stretch source = .last text) :
    text = contentText false source := by
  rw [contentText_last]
  unfold stretch at h
  split at h
  · next hcut =>
      cases h
      exact (unescape_of_not_isInfix (not_isInfix_of_cut_eq_none hcut)).symm
  · next before rest hcut =>
      have hfree := not_isInfix_of_cut hcut (by decide)
      split at h
      · contradiction
      · next tail htail hbefore =>
          simp only at h
          split at h
          · next hlater =>
              cases h
              have hinner := not_isInfix_of_cut_eq_none hlater
              rw [eq_append_of_cut hcut, unescape_of_stretch hbefore htail hfree hinner]
          · split at h <;> contradiction
      · contradiction

/-- What stands before a tag is a content. -/
theorem exists_contentText_of_upTo
    {source text rest : List Char} (h : stretch source = .upTo text rest) :
    ∃ slice, source = slice ++ (openBraces ++ rest) ∧ text = contentText true slice := by
  unfold stretch at h
  split at h
  · contradiction
  · next before rest hcut =>
      have hfree := not_isInfix_of_cut hcut (by decide)
      have hsource := eq_append_of_cut hcut
      split at h
      · next tail htwo =>
          cases h
          refine ⟨before, by rw [hsource, List.append_assoc], ?_⟩
          have hsuffix : ['\\', '\\'] <:+ before := by
            rw [← List.reverse_prefix, htwo]
            exact ⟨tail, rfl⟩
          rw [contentText, if_pos ⟨rfl, hsuffix⟩, unescape_of_not_isInfix hfree]
      · next tail htail hbefore =>
          simp only at h
          split at h
          · contradiction
          · next inner later hlater =>
              split at h
              · contradiction
              · next hlast =>
                  cases h
                  have hinner := not_isInfix_of_cut hlater (by decide)
                  refine ⟨before ++ openBraces ++ inner, ?_, ?_⟩
                  · rw [hsource, eq_append_of_cut hlater]
                    simp only [List.append_assoc]
                  · rw [contentText, if_neg, unescape_of_stretch hbefore htail hfree hinner]
                    -- The slice does not end with a backslash: the scanner gives up on those.
                    rintro ⟨-, hsuffix⟩
                    have hend := getLast?_of_backslashes hsuffix
                    rw [List.getLast?_append, Option.or_eq_some_iff] at hend
                    obtain hend | ⟨-, hend⟩ := hend
                    · exact hlast hend
                    · simp [openBraces] at hend
      · next htwo hone =>
          cases h
          refine ⟨text, by rw [hsource, List.append_assoc], ?_⟩
          rw [contentText, if_neg, unescape_of_not_isInfix hfree]
          rintro ⟨-, front, rfl⟩
          exact htwo front.reverse (by simp)

/-- A content of blanks is its slice as it stands. -/
theorem contentText_of_blank
    {tagFollows : Bool} {slice : List Char}
    (h : ∀ c ∈ contentText tagFollows slice, isBlank c = true) :
    contentText tagFollows slice = slice := by
  unfold contentText at h ⊢
  split at h
  · next hsuffix =>
      obtain ⟨-, front, rfl⟩ := hsuffix
      rw [unescape_backslashes] at h
      have hblank : isBlank '\\' = true := by
        apply h
        rw [List.dropLast_append_of_ne_nil (by simp)]
        simp
      contradiction
  · next hsuffix =>
      rw [if_neg hsuffix]
      apply unescape_of_not_isInfix
      intro hbraces
      have hbrace : '\x7b' ∈ slice := hbraces.subset (by simp [openBraces])
      have hblank : isBlank '\x7b' = true := h _ (mem_unescape hbrace (by decide))
      contradiction

/-- A text without the blanks at those ends that are to lose them. -/
def trimAt (atStart atEnd : Bool) (cs : List Char) : List Char :=
  let cs := if atStart then trimStart cs else cs
  if atEnd then trimEnd cs else cs

theorem blank_of_trimStart_eq_nil {cs : List Char} (h : trimStart cs = []) :
    ∀ c ∈ cs, isBlank c = true :=
  List.dropWhile_eq_nil_iff.mp h

theorem blank_of_trimEnd_eq_nil {cs : List Char} (h : trimEnd cs = []) :
    ∀ c ∈ cs, isBlank c = true := by
  have hdrop := List.dropWhile_eq_nil_iff.mp (List.reverse_eq_nil_iff.mp h)
  intro c hc
  exact hdrop c (List.mem_reverse.mpr hc)

/-- A text that is trimmed to nothing is blank. -/
theorem blank_of_trimAt_eq_nil
    {atStart atEnd : Bool} {cs : List Char} (h : trimAt atStart atEnd cs = []) :
    (∀ c ∈ cs, isBlank c = true) ∧ (cs = [] ∨ atStart = true ∨ atEnd = true) := by
  cases atStart with
  | false =>
      cases atEnd with
      | false =>
          obtain rfl : cs = [] := h
          simp
      | true => exact ⟨blank_of_trimEnd_eq_nil h, .inr (.inr rfl)⟩
  | true =>
      refine ⟨?_, .inr (.inl rfl)⟩
      cases atEnd with
      | false => exact blank_of_trimStart_eq_nil h
      | true =>
          have hblank : ∀ c ∈ trimStart cs, isBlank c = true := blank_of_trimEnd_eq_nil h
          obtain ⟨lead, hcs, hlead⟩ := exists_trimStart cs
          intro c hc
          rw [hcs] at hc
          rcases List.mem_append.mp hc with hc | hc
          · exact hlead c hc
          · exact hblank c hc

/-! ## Tags -/

/-- Whether a tilde stands behind the opening braces of a tag. -/
def opensWithTilde (piece : List Char) : Bool :=
  (piece.dropWhile (· = '\x7b')).head? = some '~'

/-- Whether a tilde stands in front of the closing braces of a tag. -/
def closesWithTilde (piece : List Char) : Bool :=
  (piece.reverse.dropWhile (· = '\x7d')).head? = some '~'

/-- A piece of a source is the text of a tag. -/
def IsTagText (tag : Tag) (piece : List Char) : Prop :=
  (∃ inside, piece = openBraces ++ inside ++ closeBraces) ∧
    tag.strip = { before := opensWithTilde piece, after := closesWithTilde piece }

theorem head?_dropWhile_append
    {mark : Char} {lead rest : List Char}
    (hlead : ∀ c ∈ lead, c = mark) (hrest : rest.head? ≠ some mark) :
    ((lead ++ rest).dropWhile (· = mark)).head? = rest.head? := by
  rw [List.dropWhile_append_of_pos (by simpa using hlead)]
  cases rest with
  | nil => rfl
  | cons c rest =>
      rw [List.dropWhile_cons_of_neg]
      simpa using hrest

theorem opensWithTilde_append
    {lead rest : List Char}
    (hlead : ∀ c ∈ lead, c = '\x7b') (hrest : rest.head? ≠ some '\x7b') :
    opensWithTilde (lead ++ rest) = decide (rest.head? = some '~') := by
  rw [opensWithTilde, head?_dropWhile_append hlead hrest]

theorem closesWithTilde_append
    {front close : List Char}
    (hclose : ∀ c ∈ close, c = '\x7d') (hfront : front.getLast? ≠ some '\x7d') :
    closesWithTilde (front ++ close) = decide (front.getLast? = some '~') := by
  rw [← List.head?_reverse] at hfront ⊢
  rw [closesWithTilde, List.reverse_append, head?_dropWhile_append ?_ hfront]
  intro c hc
  exact hclose c (List.mem_reverse.mp hc)

/-- What a mark is skipped from. -/
theorem skip_eq (mark : Char) (cs : List Char) :
    cs = (if (skip mark cs).1 then [mark] else []) ++ (skip mark cs).2 ∧
      (skip mark cs).1 = decide (cs.head? = some mark) := by
  cases cs with
  | nil => exact ⟨rfl, rfl⟩
  | cons c cs =>
      by_cases hc : c = mark
      · simp [skip, hc]
      · simp [skip, hc]

/-- In front of the mark and of the expression of a tag stand two or three braces, and then perhaps
a tilde. -/
theorem exists_lead {rest : List Char} (hraw : ¬ (after? openBraces rest).isSome = true) :
    ∃ lead,
      openBraces ++ rest = openBraces ++ lead ++ (skip '\x7b' rest).2 ∧
      (∀ c ∈ lead, c = '\x7b') ∧ (skip '\x7b' rest).2.head? ≠ some '\x7b' := by
  obtain ⟨hrest, htriple⟩ := skip_eq '\x7b' rest
  cases hskip : (skip '\x7b' rest).1 with
  | true =>
      rw [hskip, if_pos rfl] at hrest
      refine ⟨['\x7b'], ?_, by simp, ?_⟩
      · rw [List.append_assoc, ← hrest]
      · intro hhead
        obtain ⟨later, hlater⟩ := List.head?_eq_some_iff.mp hhead
        rw [hlater] at hrest
        rw [hrest] at hraw
        exact hraw rfl
  | false =>
      rw [hskip, if_neg Bool.false_ne_true, List.nil_append] at hrest
      refine ⟨[], by rw [List.append_nil, ← hrest], by simp, ?_⟩
      rw [← hrest]
      simpa [hskip] using htriple

theorem dropTilde_fst (inside : List Char) :
    (dropTilde inside).1 = decide (inside.getLast? = some '~') := by
  unfold dropTilde
  split
  · next h => simp [h]
  · next h => simp [h]

/-- The text before closing braces does not end with a brace. -/
theorem getLast?_ne_of_cut
    {close cs inside rest : List Char}
    (h : cut close cs = some (inside, rest)) (hclose : '\x7d' :: close = close ++ ['\x7d']) :
    inside.getLast? ≠ some '\x7d' := by
  intro hlast
  obtain ⟨lead, rfl⟩ := List.getLast?_eq_some_iff.mp hlast
  have hcs : cs = lead ++ close ++ ('\x7d' :: rest) := by
    rw [eq_append_of_cut h, List.append_assoc lead, List.singleton_append, hclose]
    simp only [List.append_assoc, List.singleton_append]
  have hle := length_le_of_cut h hcs
  rw [List.length_append, List.length_singleton] at hle
  omega

/-- A comment ends at closing braces, and its flag says whether a tilde stands there. -/
theorem closeComment_eq
    {inside text rest : List Char} {tilde : Bool}
    (h : closeComment inside = some (text, tilde, rest)) :
    ∃ body,
      inside = body ++ closeBraces ++ rest ∧ body.getLast? ≠ some '\x7d' ∧
        tilde = decide (body.getLast? = some '~') := by
  unfold closeComment at h
  split at h
  · next long hlong =>
      refine ⟨['-', '-'] ++ text ++ ['-', '-'] ++ (if tilde then ['~'] else []), ?_, ?_, ?_⟩
      · rw [eq_append_of_after? hlong, closeLongComment_eq h]
        simp only [List.append_assoc]
      · cases tilde <;> simp [List.getLast?_append, List.getLast?_cons]
      · cases tilde <;> simp [List.getLast?_append, List.getLast?_cons]
  · simp only [Option.map_eq_some_iff, Prod.mk.injEq, Prod.exists] at h
    obtain ⟨body, later, hcut, -, rfl, rfl⟩ := h
    exact ⟨body, eq_append_of_cut hcut, getLast?_ne_of_cut hcut rfl, dropTilde_fst body⟩

/-- Of the marks in front of an expression, only that of an inverse block may stand alone. -/
theorem exists_mark (triple : Bool) (cs : List Char) :
    ∃ mark,
      cs = mark ++ (if triple then (TagKind.unescaped, cs) else sigil cs).2 ∧
        ((classify (if triple then (TagKind.unescaped, cs) else sigil cs).1 []).isSome = true →
          mark = ['^']) := by
  have hclassify {kind : TagKind} (h : (classify kind []).isSome = true) :
      kind = .inverse ∨ kind = .alternative := by
    revert h
    cases kind <;> decide
  have hkind : ∃ mark, cs = mark ++ (sigil cs).2 ∧ (sigil cs).1 ≠ .alternative ∧
      ((sigil cs).1 = .inverse → mark = ['^']) := by
    unfold sigil
    split
    · exact ⟨['#'], by simp⟩
    · exact ⟨['^'], by simp⟩
    · exact ⟨['/'], by simp⟩
    · exact ⟨['>'], by simp⟩
    · exact ⟨['&'], by simp⟩
    · exact ⟨[], by simp⟩
  cases triple with
  | true => exact ⟨[], rfl, fun h => by obtain h | h := hclassify h <;> contradiction⟩
  | false =>
      obtain ⟨mark, hcs, halternative, hinverse⟩ := hkind
      refine ⟨mark, hcs, fun h => ?_⟩
      obtain h | h := hclassify h
      · exact hinverse h
      · contradiction

/-- Braces around what is neither empty nor next to more of them are the text of a tag. -/
theorem isTagText_of_inside
    {tag : Tag} {lead inside close : List Char}
    (hlead : ∀ c ∈ lead, c = '\x7b') (hclose : ∀ c ∈ close, c = '\x7d')
    (hend : closeBraces <:+ close) (hinside : inside ≠ [])
    (hfirst : inside.head? ≠ some '\x7b') (hlast : inside.getLast? ≠ some '\x7d')
    (hstrip : tag.strip =
      { before := decide (inside.head? = some '~'), after := decide (inside.getLast? = some '~') }) :
    IsTagText tag (openBraces ++ lead ++ (inside ++ close)) := by
  constructor
  · obtain ⟨more, hmore⟩ := hend
    refine ⟨lead ++ (inside ++ more), ?_⟩
    rw [← hmore]
    simp only [List.append_assoc]
  · have hopening : ∀ c ∈ openBraces ++ lead, c = '\x7b' := by
      intro c hc
      rcases List.mem_append.mp hc with hc | hc
      · simpa [openBraces] using hc
      · exact hlead c hc
    have hhead : (inside ++ close).head? = inside.head? := List.head?_append_of_ne_nil _ hinside
    have hgetLast : (openBraces ++ lead ++ inside).getLast? = inside.getLast? :=
      List.getLast?_append_of_ne_nil _ hinside
    have hbefore : opensWithTilde (openBraces ++ lead ++ (inside ++ close)) =
        decide (inside.head? = some '~') := by
      rw [opensWithTilde_append hopening, hhead]
      rwa [hhead]
    have hafter : closesWithTilde (openBraces ++ lead ++ (inside ++ close)) =
        decide (inside.getLast? = some '~') := by
      rw [← List.append_assoc, closesWithTilde_append hclose, hgetLast]
      rwa [hgetLast]
    rw [hstrip, hbefore, hafter]

/-- The same, with the tilde behind the opening braces apart. -/
theorem exists_isTagText
    {tag : Tag} {rest lead inner marked close after : List Char}
    (hrest : openBraces ++ rest = openBraces ++ lead ++ inner)
    (hlead : ∀ c ∈ lead, c = '\x7b') (hfirst : inner.head? ≠ some '\x7b')
    (hskip : (skip '~' inner).2 = marked ++ (close ++ after)) (hmarked : marked ≠ [])
    (hclose : ∀ c ∈ close, c = '\x7d') (hend : closeBraces <:+ close)
    (hlast : marked.getLast? ≠ some '\x7d')
    (hstrip : tag.strip =
      { before := (skip '~' inner).1, after := decide (marked.getLast? = some '~') }) :
    ∃ piece, openBraces ++ rest = piece ++ after ∧ IsTagText tag piece := by
  obtain ⟨hinner, hbefore⟩ := skip_eq '~' inner
  rw [hskip] at hinner
  generalize (if (skip '~' inner).1 = true then ['~'] else []) = tilde at hinner
  have hinside : tilde ++ marked ≠ [] := by simp [hmarked]
  have hhead : inner.head? = (tilde ++ marked).head? := by
    rw [hinner, ← List.append_assoc, List.head?_append_of_ne_nil _ hinside]
  have hgetLast : (tilde ++ marked).getLast? = marked.getLast? :=
    List.getLast?_append_of_ne_nil _ hmarked
  rw [hhead] at hfirst hbefore
  rw [← hgetLast] at hlast
  refine ⟨_, ?_, isTagText_of_inside hlead hclose hend hinside hfirst hlast ?_⟩
  · rw [hrest, hinner]
    simp only [List.append_assoc]
  · rw [hstrip, hbefore, hgetLast]

section

variable {tag : Tag} {rest lead inner inside after : List Char}

theorem isTagText_of_comment
    {text : List Char} {tilde : Bool}
    (hrest : openBraces ++ rest = openBraces ++ lead ++ inner)
    (hlead : ∀ c ∈ lead, c = '\x7b') (hfirst : inner.head? ≠ some '\x7b')
    (hskip : (skip '~' inner).2 = '!' :: inside)
    (hclose : closeComment inside = some (text, tilde, after))
    (hstrip : tag.strip = { before := (skip '~' inner).1, after := tilde }) :
    ∃ piece, openBraces ++ rest = piece ++ after ∧ IsTagText tag piece := by
  obtain ⟨body, hbody, hlast, hafter⟩ := closeComment_eq hclose
  have hcons {c : Char} (hc : '!' ≠ c) :
      ('!' :: body).getLast? = some c ↔ body.getLast? = some c := by
    rw [List.getLast?_cons]
    cases body.getLast? <;> simp [hc]
  apply exists_isTagText hrest hlead hfirst ?_ (List.cons_ne_nil '!' body) ?_
    (List.suffix_refl closeBraces)
  · rwa [Ne, hcons (by decide)]
  · simp only [hstrip, hafter, hcons (show '!' ≠ '~' by decide)]
  · rw [hskip, hbody, List.append_assoc, List.cons_append]
  · simp [closeBraces]

theorem isTagText_of_expression
    {triple : Bool}
    (hrest : openBraces ++ rest = openBraces ++ lead ++ inner)
    (hlead : ∀ c ∈ lead, c = '\x7b') (hfirst : inner.head? ≠ some '\x7b')
    (hcut : cut (if triple then '\x7d' :: closeBraces else closeBraces)
      (if triple then (TagKind.unescaped, (skip '~' inner).2)
        else sigil (skip '~' inner).2).2 = some (inside, after))
    (hclassify : (classify (if triple then (TagKind.unescaped, (skip '~' inner).2)
      else sigil (skip '~' inner).2).1 (trim (dropTilde inside).2)).isSome = true)
    (hstrip : tag.strip = { before := (skip '~' inner).1, after := (dropTilde inside).1 }) :
    ∃ piece, openBraces ++ rest = piece ++ after ∧ IsTagText tag piece := by
  obtain ⟨mark, hmark, hempty⟩ := exists_mark triple (skip '~' inner).2
  -- Where nothing stands between the mark and the closing braces, the mark is what they follow.
  have hend : (mark ++ inside).getLast? = if inside = [] then some '^' else inside.getLast? := by
    split
    · next hinside =>
        subst hinside
        rw [hempty hclassify]
        rfl
    · next hinside => exact List.getLast?_append_of_ne_nil _ hinside
  have hmarked : mark ++ inside ≠ [] := by
    intro hnil
    obtain ⟨-, rfl⟩ := List.append_eq_nil_iff.mp hnil
    rw [hnil] at hend
    contradiction
  rw [eq_append_of_cut hcut, List.append_assoc inside, ← List.append_assoc] at hmark
  refine exists_isTagText hrest hlead hfirst hmark hmarked ?_ ?_ ?_ ?_
  · cases triple <;> simp [closeBraces]
  · cases triple with
    | false => exact List.suffix_refl _
    | true => exact List.suffix_cons _ _
  · rw [hend]
    split
    · simp
    · exact getLast?_ne_of_cut hcut (by cases triple <;> rfl)
  · rw [hstrip, hend, dropTilde_fst]
    split
    · next hinside => simp [hinside]
    · rfl

end

/-- A tag is read up to its closing braces. -/
theorem readTag_isTagText
    {index : LineIndex} {rest after : List Char} {tag : Tag}
    (h : readTag index rest = .ok (tag, after)) :
    ∃ piece, openBraces ++ rest = piece ++ after ∧ IsTagText tag piece := by
  unfold readTag at h
  simp only at h
  split at h
  · contradiction
  · next hraw =>
      obtain ⟨lead, hlead, hbraces, hfirst⟩ := exists_lead hraw
      split at h
      · next inside hinside =>
          split at h
          · contradiction
          · next text tilde later hclose =>
              cases h
              exact isTagText_of_comment hlead hbraces hfirst hinside hclose rfl
      · split at h
        · contradiction
        · next inside later hcut =>
            split at h
            · contradiction
            · split at h
              · contradiction
              · next kind body hclassify =>
                  cases h
                  exact isTagText_of_expression hlead hbraces hfirst hcut
                    (Option.isSome_of_eq_some hclassify) rfl

end Template
end TemplateModules
