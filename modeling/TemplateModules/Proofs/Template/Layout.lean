import TemplateModules.Proofs.Template.Tiling
import TemplateModules.Proofs.Template.Unplaced

/-!
# The layout of tags

If the blanks between two tokens of a tag are exchanged for others, then the source is the same tree
up to spans, or is refused as before.  There are two exceptions, since two readers look at these
blanks themselves.  Only a space behind the word `else` makes it the start of a section, and a close
tag is compared with the name of its block as it is written.
-/

namespace TemplateModules
namespace Template

open Text
open ByOffset (refusedFeature?_cons readTag_raw)

/-- A run of blanks that is not empty. -/
structure IsBreak (blanks : List Char) : Prop where
  blank : AllBlank blanks
  ne_nil : blanks ≠ []

theorem IsBreak.head? {blanks : List Char} (h : IsBreak blanks) (more : List Char) :
    ∀ c ∈ (blanks ++ more).head?, isBlank c = true := by
  rw [List.head?_append_of_ne_nil _ h.ne_nil]
  exact h.blank.head?

/-! ## Classes of tags -/

/-- The kind of a tag becomes that of an `else`, or it stays and so does its body. -/
theorem classify_eq_some
    {kind final : TagKind} {body body' : List Char} (h : classify kind body = some (final, body')) :
    final = .alternative ∨ final = kind ∧ body' = body := by
  simp only [classify, Option.ite_none_left_eq_some, Option.some.injEq, Prod.mk.injEq] at h
  obtain ⟨-, rfl, rfl⟩ := h
  split
  · exact .inl rfl
  · exact .inl rfl
  · dsimp only
    split
    · exact .inl rfl
    · exact .inr ⟨rfl, rfl⟩
  · exact .inr ⟨rfl, rfl⟩

theorem classify_chained
    {body chained : List Char} (h : after? elseWord body = some (' ' :: chained)) :
    classify .mustache body = some (.alternative, trim chained) := by
  simp [classify, h]

/-- A body that neither is empty nor starts with a keyword stays what it is. -/
theorem classify_plain
    {kind : TagKind} {body : List Char} (hne : body ≠ [])
    (h : kind = .mustache → ∀ rest ∈ after? elseWord body, rest ≠ [] ∧ rest.head? ≠ some ' ') :
    classify kind body = some (kind, body) := by
  have hempty : body.isEmpty = false := by simpa using hne
  unfold classify
  dsimp only
  split
  · next hafter => exact absurd rfl (h rfl [] hafter).1
  · next chained hafter => exact absurd rfl (h rfl _ hafter).2
  · simp [hempty]
  · simp [hempty]

theorem announced_ne_comment (rest : List Char) : (announced rest).1 ≠ .comment := by
  unfold announced
  split
  · simp
  · unfold sigil
    split <;> simp

theorem trim_ne_nil {cs : List Char} (h : ¬ AllBlank cs) : trim cs ≠ [] := by
  intro hnil
  have htrim : trimAt true true cs = [] := hnil
  exact h (blank_of_trimAt_eq_nil htrim).1

/-- Two kinds with their bodies are the same up to the blanks between lexemes. -/
structure SameBody (found found' : TagKind × List Char) : Prop where
  kind : found'.1 = found.1
  lexemes : Lexeme.readAll found'.2 = Lexeme.readAll found.2
  empty : found'.2 = [] ↔ found.2 = []

section

variable {kind : TagKind} {left blanks blanks' right : List Char} {ls : List Lexeme}

theorem sameBody_refl (found : Option (TagKind × List Char)) :
    Option.Rel SameBody found found := by
  cases found with
  | none => exact .none
  | some found => exact .some ⟨rfl, rfl, Iff.rfl⟩

theorem readAll_elseWord : Lexeme.readAll elseWord = .ok [.word "else"] := by
  decide +kernel

/-- What stands behind the word `else` can be read as well. -/
theorem readAll_of_else
    {word rest : List Char} (h : Lexeme.readAll word = .ok ls)
    (hword : after? elseWord word = some rest) (hrest : ∀ c ∈ rest.head?, isBlank c = true) :
    ∃ found, Lexeme.readAll rest = .ok found := by
  rw [eq_append_of_after? hword, Lexeme.readAll_append readAll_elseWord hrest] at h
  obtain ⟨found, hfound, -⟩ := map_eq_ok.mp h
  exact ⟨found, hfound⟩

/-- The word `else` does not reach over blanks. -/
theorem after?_elseWord (hblanks : IsBreak blanks) (word right : List Char) :
    after? elseWord (word ++ (blanks ++ right)) =
      (after? elseWord word).map (· ++ (blanks ++ right)) := by
  have hplain : ∀ c ∈ elseWord, isBlank c = false := by simp [elseWord, isBlank]
  refine after?_append_of_notMem (fun c hc hmem => ?_) _ (by simp [hblanks.ne_nil])
  have hblank := hblanks.head? right c hc
  rw [hplain c hmem] at hblank
  exact Bool.false_ne_true hblank

/-- Whether a space follows the word `else` can be seen from the blanks only if they stand right
behind it. -/
theorem space_iff
    {word rest : List Char} (hblanks : IsBreak blanks) (hblanks' : IsBreak blanks')
    (hrest : after? elseWord word = some rest)
    (helse : word = elseWord → (blanks.head? = some ' ' ↔ blanks'.head? = some ' '))
    (right : List Char) :
    (rest ++ (blanks ++ right)).head? = some ' ' ↔
      (rest ++ (blanks' ++ right)).head? = some ' ' := by
  cases rest with
  | nil =>
      have hword : word = elseWord := by simpa using eq_append_of_after? hrest
      rw [List.nil_append, List.nil_append, List.head?_append_of_ne_nil _ hblanks.ne_nil,
        List.head?_append_of_ne_nil _ hblanks'.ne_nil]
      exact helse hword
  | cons c rest => exact Iff.rfl

/-- What stands behind the word `else` and a space has the same lexemes with other blanks. -/
theorem sameBody_chained
    {rest chained chained' : List Char} (hread : Lexeme.readAll rest = .ok ls)
    (hblanks : IsBreak blanks) (hblanks' : IsBreak blanks') (hright : ¬ AllBlank right)
    (h : rest ++ (blanks ++ right) = ' ' :: chained)
    (h' : rest ++ (blanks' ++ right) = ' ' :: chained') :
    SameBody (.alternative, trim chained) (.alternative, trim chained') := by
  have hblank : AllBlank [' '] := by simp [AllBlank, isBlank]
  have hspace (cs : List Char) : Lexeme.readAll (' ' :: cs) = Lexeme.readAll cs :=
    Lexeme.readAll_blank hblank cs
  have hne {blanks chained : List Char} (h : rest ++ (blanks ++ right) = ' ' :: chained) :
      trim chained ≠ [] := by
    refine trim_ne_nil fun hchained => hright fun c hc => ?_
    have hmem : c ∈ [' '] ++ chained := by
      rw [List.singleton_append, ← h]
      simp [hc]
    exact List.forall_mem_append.mpr ⟨hblank, hchained⟩ c hmem
  refine ⟨rfl, ?_, iff_of_false (hne h') (hne h)⟩
  rw [Lexeme.readAll_trim, Lexeme.readAll_trim, ← hspace, ← hspace chained, ← h, ← h',
    Lexeme.readAll_relaid hread hblanks'.blank hblanks.blank hblanks'.ne_nil hblanks.ne_nil]

/-- With other blanks in its middle a body is of the same class, if these keep the word `else` in
front of them what it is. -/
theorem classify_between
    {word : List Char} (hread : Lexeme.readAll word = .ok ls) (hblanks : IsBreak blanks)
    (hblanks' : IsBreak blanks') (hright : ¬ AllBlank right)
    (helse : kind = .mustache → word = elseWord →
      (blanks.head? = some ' ' ↔ blanks'.head? = some ' ')) :
    Option.Rel SameBody (classify kind (word ++ (blanks ++ right)))
      (classify kind (word ++ (blanks' ++ right))) := by
  have hplain {blanks : List Char} (hblanks : IsBreak blanks)
      (h : kind = .mustache → ∀ rest ∈ after? elseWord word,
        (rest ++ (blanks ++ right)).head? ≠ some ' ') :
      classify kind (word ++ (blanks ++ right)) = some (kind, word ++ (blanks ++ right)) := by
    refine classify_plain (by simp [hblanks.ne_nil]) fun hkind rest hrest => ?_
    rw [after?_elseWord hblanks] at hrest
    obtain ⟨found, hfound, rfl⟩ := Option.map_eq_some_iff.mp hrest
    exact ⟨by simp [hblanks.ne_nil], h hkind found hfound⟩
  have hsame : SameBody (kind, word ++ (blanks ++ right)) (kind, word ++ (blanks' ++ right)) := by
    refine ⟨rfl, ?_, by simp [hblanks.ne_nil, hblanks'.ne_nil]⟩
    rw [Lexeme.readAll_relaid hread hblanks'.blank hblanks.blank hblanks'.ne_nil hblanks.ne_nil]
  have hspace {rest : List Char} (hkind : kind = .mustache)
      (hrest : after? elseWord word = some rest) :
      (rest ++ (blanks ++ right)).head? = some ' ' ↔
        (rest ++ (blanks' ++ right)).head? = some ' ' :=
    space_iff hblanks hblanks' hrest (helse hkind) right
  by_cases hchained : kind = .mustache ∧ ∃ rest, after? elseWord word = some rest ∧
      (rest ++ (blanks ++ right)).head? = some ' '
  · obtain ⟨rfl, rest, hrest, hhead⟩ := hchained
    have hblank : ∀ c ∈ rest.head?, isBlank c = true := by
      intro c hc
      obtain ⟨more, rfl⟩ := List.head?_eq_some_iff.mp hc
      obtain rfl : c = ' ' := Option.some.inj hhead
      rfl
    obtain ⟨found, hfound⟩ := readAll_of_else hread hrest hblank
    obtain ⟨chained, h⟩ := List.head?_eq_some_iff.mp hhead
    obtain ⟨chained', h'⟩ := List.head?_eq_some_iff.mp ((hspace rfl hrest).mp hhead)
    have hclass {blanks chained : List Char} (hblanks : IsBreak blanks)
        (h : rest ++ (blanks ++ right) = ' ' :: chained) :
        classify .mustache (word ++ (blanks ++ right)) = some (.alternative, trim chained) := by
      apply classify_chained
      rw [after?_elseWord hblanks, hrest, Option.map_some, h]
    rw [hclass hblanks h, hclass hblanks' h']
    exact .some (sameBody_chained hfound hblanks hblanks' hright h h')
  · have hnone : kind = .mustache → ∀ rest ∈ after? elseWord word,
        (rest ++ (blanks ++ right)).head? ≠ some ' ' :=
      fun hkind rest hrest hhead => hchained ⟨hkind, rest, hrest, hhead⟩
    rw [hplain hblanks hnone, hplain hblanks' fun hkind rest hrest hhead =>
      hnone hkind rest hrest ((hspace hkind hrest).mpr hhead)]
    exact .some hsame

/-- With other blanks in its body a tag is of the same class. -/
theorem classify_relaid
    (hleft : Lexeme.readAll left = .ok ls) (hblanks : IsBreak blanks) (hblanks' : IsBreak blanks')
    (helse : kind = .mustache → trimStart left = elseWord →
      (blanks.head? = some ' ' ↔ blanks'.head? = some ' ')) :
    Option.Rel SameBody (classify kind (trim (left ++ (blanks ++ right))))
      (classify kind (trim (left ++ (blanks' ++ right)))) := by
  by_cases hstart : AllBlank left
  · rw [trim_of_blank_left hblanks.blank hstart, trim_of_blank_left hblanks'.blank hstart]
    exact sameBody_refl _
  by_cases hend : AllBlank right
  · rw [trim_of_blank_right hblanks.blank hend, trim_of_blank_right hblanks'.blank hend]
    exact sameBody_refl _
  obtain ⟨lead, hlead, hblank⟩ := exists_trimStart left
  obtain ⟨tail, htail, hblank'⟩ := exists_trimEnd right
  have hright : ¬ AllBlank (trimEnd right) := by
    intro hright
    rw [htail] at hend
    exact hend (List.forall_mem_append.mpr ⟨hright, hblank'⟩)
  rw [hlead, Lexeme.readAll_blank hblank] at hleft
  rw [trim_between hstart hend, trim_between hstart hend]
  exact classify_between hleft hblanks hblanks' hright helse

/-- Tags of the same class say the same. -/
theorem SameBody.relaid
    {Opened : String → Prop} {final final' : TagKind} {text text' body body' : List Char}
    (h : SameBody (final, body) (final', body')) (hkind : kind ≠ .comment)
    (hclass : classify kind text = some (final, body))
    (hclass' : classify kind text' = some (final', body'))
    (hname : kind = .close → ∀ name, Opened name → (text' = name.toList ↔ text = name.toList))
    (strip : Strip) (span span' : Span) :
    Tag.Relaid Opened { kind := final, body := String.ofList body, strip, span }
      { kind := final', body := String.ofList body', strip, span := span' } where
  kind := h.kind
  strip := rfl
  lexemes := by
    rw [Lexeme.ofBody, Lexeme.ofBody, String.toList_ofList, String.toList_ofList]
    exact h.lexemes
  empty := by
    rw [String.ofList_eq_empty_iff, String.ofList_eq_empty_iff]
    exact h.empty
  comment hcomment := by
    dsimp only at hcomment
    subst hcomment
    obtain hfinal | ⟨hfinal, -⟩ := classify_eq_some hclass
    · contradiction
    · exact absurd hfinal.symm hkind
  close hclose name hopened := by
    obtain rfl : final' = final := h.kind
    dsimp only at hclose
    subst hclose
    obtain hfinal | ⟨rfl, rfl⟩ := classify_eq_some hclass
    · contradiction
    obtain hfinal | ⟨-, rfl⟩ := classify_eq_some hclass'
    · contradiction
    have htext (cs : List Char) : String.ofList cs = name ↔ cs = name.toList := by
      rw [← String.toList_inj, String.toList_ofList]
    rw [htext, htext]
    exact hname rfl name hopened

end

/-! ## Gaps -/

theorem dropTilde_append
    {front inside : List Char} (h : inside ≠ [] ∨ front.getLast? ≠ some '~') :
    dropTilde (front ++ inside) = ((dropTilde inside).1, front ++ (dropTilde inside).2) := by
  by_cases hinside : inside = []
  · subst hinside
    simp [dropTilde, h.resolve_left fun hne => hne rfl]
  · rw [dropTilde, dropTilde, List.getLast?_append_of_ne_nil _ hinside]
    split
    · rw [List.dropLast_append_of_ne_nil hinside]
    · rfl

/-- A tilde behind blanks stands at the end of the tag. -/
theorem dropTilde_break
    {blanks : List Char} (h : IsBreak blanks) (left inside : List Char) :
    dropTilde (left ++ (blanks ++ inside)) =
      ((dropTilde inside).1, left ++ (blanks ++ (dropTilde inside).2)) := by
  have hlast : (left ++ blanks).getLast? ≠ some '~' := by
    intro hlast
    rw [List.getLast?_append_of_ne_nil _ h.ne_nil] at hlast
    exact absurd (h.blank '~' (List.mem_of_getLast? hlast)) (by decide)
  rw [← List.append_assoc, dropTilde_append (.inr hlast), List.append_assoc]

/-- Blanks inside a tag do not ask for a feature. -/
theorem refusedFeature?_break
    {blanks blanks' : List Char} (h : IsBreak blanks) (h' : IsBreak blanks') (kind : TagKind)
    (left inside : List Char) :
    refusedFeature? kind (left ++ (blanks ++ inside)) =
      refusedFeature? kind (left ++ (blanks' ++ inside)) := by
  have hnone {c : Char} (hc : isBlank c = true) (cs : List Char) :
      refusedFeature? kind (c :: cs) = none := by
    unfold refusedFeature?
    split
    case h_4 => rfl
    all_goals
      next heq =>
        cases heq
        exact absurd hc (by decide)
  cases left with
  | nil =>
      obtain ⟨c, cs, rfl⟩ := List.exists_cons_of_ne_nil h.ne_nil
      obtain ⟨d, ds, rfl⟩ := List.exists_cons_of_ne_nil h'.ne_nil
      rw [List.nil_append, List.nil_append, List.cons_append, List.cons_append,
        hnone (h.blank c List.mem_cons_self), hnone (h'.blank d List.mem_cons_self)]
  | cons c left => exact refusedFeature?_cons kind c _ _

/-- The scan refuses a tag that ends in front of a place. -/
def RefusedBefore (source front : List Char) : Prop :=
  ∃ e, scan (String.ofList source) = .error (.refused e) ∧ e.span.stop ≤ byteSize front

theorem prefix_of_byteSize_le
    {front front' rest rest' : List Char} (h : front ++ rest = front' ++ rest')
    (hle : byteSize front ≤ byteSize front') :
    front <+: front' := by
  have hprefix : front' <+: front ++ rest := h ▸ List.prefix_append front' rest'
  obtain hfront | ⟨more, rfl⟩ :=
    List.prefix_or_prefix_of_prefix (List.prefix_append front rest) hprefix
  · exact hfront
  · by_cases hmore : more = []
    · simp [hmore]
    · have hpos := byteSize_pos hmore
      rw [byteSize_append] at hle
      omega

/-- Two sources are alike if they differ behind a tag that both refuse. -/
theorem RefusedBefore.scansAlike
    {Opened : String → Prop} {index' : LineIndex} {front rest : List Char}
    (h : RefusedBefore (front ++ rest) front) (hrest : rest ≠ []) (rest' : List Char) :
    ScansAlike Opened (scanFrom (LineIndex.ofSource (front ++ rest)) (front ++ rest))
      (scanFrom index' (front ++ rest')) := by
  obtain ⟨e, hscan, hstop⟩ := h
  obtain ⟨lead, behind, hopens, htag⟩ := exists_refused_of_scan hscan
  rw [String.toList_ofList] at hopens htag
  have hsource := hopens.source_eq
  have hpos := byteSize_pos hrest
  have hend (after : List Char) :
      ((LineIndex.ofSource (front ++ rest)).between (openBraces ++ behind) after).stop =
        byteSize (front ++ rest) - byteSize after := rfl
  obtain ⟨after, hspan, rfl | ⟨piece, rfl, hlocal⟩⟩ := readTag_error_append htag
  · -- The tag is not closed, so it does not end in front of the place.
    rw [hspan, hend, byteSize_append, byteSize_nil] at hstop
    omega
  · have hpieces : lead ++ (openBraces ++ piece) ++ after = front ++ rest := by
      rw [hsource]
      simp only [List.append_assoc]
    rw [hspan, hend, ← hpieces, byteSize_append, Nat.add_sub_cancel] at hstop
    obtain ⟨more, rfl⟩ := prefix_of_byteSize_le hpieces hstop
    obtain ⟨e', htag'⟩ := hlocal index' (more ++ rest')
    have htags : ScansAlike Opened (scanTag (LineIndex.ofSource _) (piece ++ after))
        (scanTag index' (piece ++ (more ++ rest'))) := .tag_refused htag htag'
    simpa only [List.append_assoc] using hopens.scansAlike htags

/-- A place in a tag: what stands in front of the tag, in the tag up to the place, and behind it. -/
structure Gap where
  front : List Char
  left : List Char
  right : List Char

namespace Gap

/-- The source with these characters in the gap. -/
def fill (gap : Gap) (blanks : List Char) : List Char :=
  gap.front ++ (openBraces ++ (gap.left ++ (blanks ++ gap.right)))

/-- The kind that the marks of the tag announce. -/
def kind (gap : Gap) : TagKind :=
  (announced gap.left).1

/-- The expression in front of the gap. -/
def lead (gap : Gap) : List Char :=
  (announced gap.left).2

def closer (gap : Gap) : List Char :=
  ByOffset.closer (skip '\x7b' gap.left).1

/-- The body of the tag with these characters in the gap, if it is closed. -/
def body? (gap : Gap) (blanks : List Char) : Option (List Char) :=
  (cut gap.closer gap.right).map fun found =>
    trim (gap.lead ++ (blanks ++ (dropTilde found.1).2))

/-- The characters are blanks between two tokens of a tag.  The scan comes to this tag, or it
refuses a tag in front of it. -/
structure Separates (gap : Gap) (blanks : List Char) : Prop where
  isBreak : IsBreak blanks
  opens : OpensTag (gap.fill blanks) gap.front (gap.left ++ (blanks ++ gap.right)) ∨
    RefusedBefore (gap.fill blanks) gap.front
  expression : ¬ IsComment gap.left
  /-- The tag is not closed in front of them. -/
  unclosed : ¬ gap.closer <:+: gap.lead
  /-- No quoted text and no bracket is open. -/
  lexemes : ∃ ls, Lexeme.readAll gap.lead = .ok ls

/-- Other blanks keep what two readers see of them: the word `else` with a space behind it, and the
name in a close tag. -/
structure Keeps (gap : Gap) (Opened : String → Prop) (blanks blanks' : List Char) : Prop where
  word : gap.kind = .mustache → trimStart gap.lead = elseWord →
    (blanks.head? = some ' ' ↔ blanks'.head? = some ' ')
  name : gap.kind = .close → ∀ name, Opened name →
    (gap.body? blanks' = some name.toList ↔ gap.body? blanks = some name.toList)

variable {gap : Gap} {blanks blanks' : List Char} {Opened : String → Prop}
  {index index' : LineIndex}

/-- The tag is read up to the first closing braces behind the gap. -/
theorem readTag_eq (hbreak : IsBreak blanks) (hexpression : ¬ IsComment gap.left)
    (hunclosed : ¬ gap.closer <:+: gap.lead)
    (hraw : ¬ (after? openBraces gap.left).isSome = true) (index : LineIndex) :
    readTag index (gap.left ++ (blanks ++ gap.right)) =
      closeTag index (openBraces ++ (gap.left ++ (blanks ++ gap.right)))
        (skip '~' (skip '\x7b' gap.left).2).1 gap.kind
        ((cut gap.closer gap.right).map fun found =>
          (gap.lead ++ (blanks ++ found.1), found.2)) := by
  have hcloser : ∀ c ∈ gap.closer, isBlank c = false := by
    unfold Gap.closer ByOffset.closer
    split <;> simp [closeBraces, isBlank]
  rw [readTag_eq_closeTag (.inr (hbreak.head? gap.right)) hraw hexpression]
  exact congrArg _ (cut_append_blank hcloser hunclosed hbreak.blank hbreak.ne_nil gap.right)

/-- The tag is the same with other blanks in the gap, or it is refused as well. -/
theorem scanTag_alike (h : gap.Separates blanks) (hbreak' : IsBreak blanks')
    (hkeeps : gap.Keeps Opened blanks blanks') :
    ScansAlike Opened (scanTag index (gap.left ++ (blanks ++ gap.right)))
      (scanTag index' (gap.left ++ (blanks' ++ gap.right))) := by
  by_cases hraw : (after? openBraces gap.left).isSome = true
  · have hraw' {blanks : List Char} (hbreak : IsBreak blanks) :
        (after? openBraces (gap.left ++ (blanks ++ gap.right))).isSome = true := by
      rwa [raw_append (.inr (hbreak.head? gap.right))]
    exact .tag_refused (readTag_raw (hraw' h.isBreak)) (readTag_raw (hraw' hbreak'))
  have htag := readTag_eq h.isBreak h.expression h.unclosed hraw index
  have htag' := readTag_eq hbreak' h.expression h.unclosed hraw index'
  cases hcut : cut gap.closer gap.right with
  | none =>
      rw [hcut] at htag htag'
      exact .tag_refused htag htag'
  | some found =>
      obtain ⟨inside, rest⟩ := found
      rw [hcut, Option.map_some, closeTag] at htag htag'
      rw [refusedFeature?_break hbreak' h.isBreak] at htag'
      cases hrefused : refusedFeature? gap.kind (gap.lead ++ (blanks ++ inside)) with
      | some feature =>
          simp only [hrefused] at htag htag'
          exact .tag_refused htag htag'
      | none =>
          obtain ⟨ls, hls⟩ := h.lexemes
          have hclass := @classify_relaid gap.kind gap.lead blanks blanks' (dropTilde inside).2 ls
            hls h.isBreak hbreak' hkeeps.word
          simp only [hrefused, dropTilde_break h.isBreak] at htag
          simp only [hrefused, dropTilde_break hbreak'] at htag'
          have hname : gap.kind = .close → ∀ name, Opened name →
              (trim (gap.lead ++ (blanks' ++ (dropTilde inside).2)) = name.toList ↔
                trim (gap.lead ++ (blanks ++ (dropTilde inside).2)) = name.toList) := by
            simpa [body?, hcut] using hkeeps.name
          generalize hfound : classify gap.kind _ = found at htag hclass
          generalize hfound' : classify gap.kind _ = found' at htag' hclass
          cases hclass with
          | none => exact .tag_refused htag htag'
          | some hsame =>
              have hrelaid := hsame.relaid (announced_ne_comment gap.left) hfound hfound' hname
              exact .tag htag htag' (hrelaid _ _ _) (scansAlike_self index' rest)

theorem scan_eq_map (source : String) :
    scan source = (scanFrom (LineIndex.ofSource source.toList) source.toList).map
      (trimTokens false) := by
  rw [scan]
  cases scanFrom (LineIndex.ofSource source.toList) source.toList <;> rfl

/-- The scans of both sources are alike. -/
theorem scan_alike (h : gap.Separates blanks) (hbreak' : IsBreak blanks')
    (hkeeps : gap.Keeps Opened blanks blanks') :
    ScansAlike Opened (scan (String.ofList (gap.fill blanks)))
      (scan (String.ofList (gap.fill blanks'))) := by
  rw [scan_eq_map, scan_eq_map, String.toList_ofList, String.toList_ofList]
  refine EndsAlike.map ?_ fun _ _ htokens => relaid_trimTokens htokens false
  obtain hopens | hrefused := h.opens
  · exact hopens.scansAlike (scanTag_alike h hbreak' hkeeps)
  · exact hrefused.scansAlike (by simp [openBraces]) _

end Gap

/-- A block of the source is opened under this name. -/
def OpenedIn (source : String) (name : String) : Prop :=
  ∃ tokens, scan source = .ok tokens ∧ OpensUnder tokens name

/-- Blanks between two tokens of a tag can be exchanged for others: the source is the same program
up to spans, or it is refused as before. -/
theorem parse_relaid
    {gap : Gap} {blanks blanks' : List Char} (h : gap.Separates blanks) (hbreak' : IsBreak blanks')
    (hkeeps : gap.Keeps (OpenedIn (String.ofList (gap.fill blanks))) blanks blanks') :
    EndsAlike (fun program program' => program'.unplaced = program.unplaced)
      (parse (String.ofList (gap.fill blanks))) (parse (String.ofList (gap.fill blanks'))) :=
  (Gap.scan_alike h hbreak' hkeeps).parse fun tokens _ hscan hopens => ⟨tokens, hscan, hopens⟩

/-! ## Blanks behind the word `else` -/

/-- The inside of a tag that opens a block, with its closing braces. -/
def condition : List Char :=
  ['#', 'i', 'f', ' ', 'a'] ++ closeBraces

/-- A tag behind the opening tag of a block and its content. -/
theorem opensTag_condition (rest : List Char) :
    OpensTag (openBraces ++ (condition ++ ('x' :: (openBraces ++ rest))))
      (openBraces ++ (condition ++ ['x'])) rest := by
  have hread : readTag (LineIndex.ofSource []) condition = .ok
      ({ kind := .block, body := "if a", strip := { before := false, after := false },
         span := (LineIndex.ofSource []).span 0 0 }, []) := by
    decide +kernel
  obtain ⟨piece, hpiece, hlocal⟩ := readTag_append hread
  rw [List.append_nil] at hpiece
  subst hpiece
  obtain ⟨tag, htag, -⟩ := hlocal (LineIndex.ofSource _) ('x' :: (openBraces ++ rest))
  have hplain {cs : List Char} (h : cs.getLast? ≠ some '\\') : ¬ Escaped cs :=
    fun hcs => h hcs.getLast?
  have hreached := Reached.tag .start (cut_openBraces _) (hplain (by decide)) htag
    (List.append_assoc openBraces condition _).symm
  exact ⟨_, _, ['x'], hreached, rfl, hplain (by decide), rfl⟩

/-- The blanks between the words of the expression behind `else`. -/
def chainedGap : Gap where
  front := openBraces ++ (condition ++ ['x'])
  left := elseWord ++ [' ', 'i', 'f']
  right := 'b' :: closeBraces ++ ('y' :: openBraces ++ ('/' :: 'i' :: 'f' :: closeBraces))

theorem chainedGap_relaid :
    chainedGap.Separates [' '] ∧ IsBreak ['\t', '\n'] ∧
      (parse (String.ofList (chainedGap.fill [' ']))).isOk = true ∧
      EndsAlike (fun program program' => program'.unplaced = program.unplaced)
        (parse (String.ofList (chainedGap.fill [' '])))
        (parse (String.ofList (chainedGap.fill ['\t', '\n']))) := by
  have hseparates : chainedGap.Separates [' '] := {
    isBreak := ⟨by simp [AllBlank, isBlank], by simp⟩
    opens := .inl (opensTag_condition _)
    expression := fun hcomment => absurd hcomment.2 (by decide)
    unclosed := by decide
    lexemes := ⟨[.word "else", .word "if"], by decide +kernel⟩ }
  have hbreak : IsBreak ['\t', '\n'] := ⟨by simp [AllBlank, isBlank], by simp⟩
  refine ⟨hseparates, hbreak, by decide +kernel, parse_relaid hseparates hbreak ⟨?_, ?_⟩⟩
  · exact fun _ hword => absurd hword (by decide)
  · exact fun hclose => absurd hclose (by decide)

/-- The blanks between the word `else` and the expression behind it. -/
def elseGap : Gap where
  front := openBraces ++ (condition ++ ['x'])
  left := elseWord
  right := 'i' :: 'f' :: ' ' :: chainedGap.right

/-- Whether a program is a block with an inverse section. -/
def isTwoSided : Program → Bool
  | { body := [.block _ _ (some _) _], .. } => true
  | _ => false

/-- A tab behind the word `else` does not start a section. -/
theorem elseGap_notRelaid :
    elseGap.Separates [' '] ∧ IsBreak ['\t'] ∧
      ¬ EndsAlike (fun program program' => program'.unplaced = program.unplaced)
        (parse (String.ofList (elseGap.fill [' '])))
        (parse (String.ofList (elseGap.fill ['\t']))) := by
  refine ⟨{
    isBreak := ⟨by simp [AllBlank, isBlank], by simp⟩
    opens := .inl (opensTag_condition _)
    expression := fun hcomment => absurd hcomment.2 (by decide)
    unclosed := by decide
    lexemes := ⟨_, readAll_elseWord⟩ }, ⟨by simp [AllBlank, isBlank], by simp⟩, ?_⟩
  have hspace : (parse (String.ofList (elseGap.fill [' ']))).map (isTwoSided ·.unplaced) =
      .ok true := by
    decide +kernel
  have htab : (parse (String.ofList (elseGap.fill ['\t']))).map (isTwoSided ·.unplaced) =
      .ok false := by
    decide +kernel
  intro h
  generalize parse (String.ofList (elseGap.fill [' '])) = read at hspace h
  generalize parse (String.ofList (elseGap.fill ['\t'])) = read' at htab h
  cases h with
  | ok hunplaced =>
      rw [Except.map, hunplaced] at htab
      cases hspace.symm.trans htab
  | refused e e' => cases hspace
  | backwards => cases hspace

end Template
end TemplateModules
