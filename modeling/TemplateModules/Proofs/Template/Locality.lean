import TemplateModules.Proofs.Template.Blanks
import TemplateModules.Proofs.Template.TagSpans

/-!
# What a tag depends on

A tag is read from its own text: what follows its closing braces does not matter, and where it
stands in the source matters for its span only.  Blanks inside a tag hide no braces, so the tag is
closed at the same place whichever blanks these are.
-/

namespace TemplateModules

namespace Text

/-! ## Marks in longer texts -/

theorem after?_append_of_le {lead cs : List Char} (h : lead.length ≤ cs.length)
    (more : List Char) :
    after? lead (cs ++ more) = (after? lead cs).map (· ++ more) := by
  induction lead generalizing cs with
  | nil => rfl
  | cons m ms ih =>
      cases cs with
      | nil => simp at h
      | cons c cs =>
          rw [List.cons_append, after?, after?]
          split
          · exact ih (Nat.le_of_succ_le_succ h)
          · rfl

/-- A mark does not reach over a character that is not part of it. -/
theorem after?_append_of_notMem {lead more : List Char} (h : ∀ c ∈ more.head?, c ∉ lead)
    (cs : List Char) (hmore : more ≠ []) :
    after? lead (cs ++ more) = (after? lead cs).map (· ++ more) := by
  induction cs generalizing lead with
  | nil =>
      cases lead with
      | nil => rfl
      | cons m ms =>
          obtain ⟨c, more, rfl⟩ := List.exists_cons_of_ne_nil hmore
          have hne : m ≠ c := fun heq => h c rfl (heq ▸ List.mem_cons_self)
          simp only [List.nil_append, after?, if_neg hne, Option.map_none]
  | cons c cs ih =>
      cases lead with
      | nil => rfl
      | cons m ms =>
          rw [List.cons_append, after?, after?]
          split
          · exact ih fun d hd hmem => h d hd (List.mem_cons_of_mem m hmem)
          · rfl

/-- A cut is made at the same place whatever follows the mark. -/
theorem cut_append {mark before rest : List Char}
    (h : cut mark (before ++ (mark ++ rest)) = some (before, rest)) (rest' : List Char) :
    cut mark (before ++ (mark ++ rest')) = some (before, rest') := by
  induction before with
  | nil =>
      rw [List.nil_append]
      cases hmark : mark ++ rest' with
      | nil =>
          obtain ⟨rfl, rfl⟩ := List.append_eq_nil_iff.mp hmark
          rfl
      | cons c cs => rw [cut, ← hmark, after?_append]
  | cons c before ih =>
      have hlength : mark.length ≤ (c :: (before ++ mark)).length := by
        rw [List.length_cons, List.length_append]
        omega
      have hsplit (tail : List Char) : c :: (before ++ (mark ++ tail)) =
          c :: (before ++ mark) ++ tail := by simp
      have hnone : after? mark (c :: (before ++ mark)) = none := by
        rw [List.cons_append, cut, hsplit, after?_append_of_le hlength] at h
        cases hafter : after? mark (c :: (before ++ mark)) with
        | none => rfl
        | some found => simp [hafter] at h
      have hcut (tail : List Char) : cut mark (c :: before ++ (mark ++ tail)) =
          (cut mark (before ++ (mark ++ tail))).map fun found => (c :: found.1, found.2) := by
        rw [List.cons_append, cut, hsplit, after?_append_of_le hlength, hnone]
        rfl
      rw [hcut] at h ⊢
      obtain ⟨⟨front, found⟩, hfound, hpair⟩ := Option.map_eq_some_iff.mp h
      obtain ⟨hfront, rfl⟩ := Prod.mk.inj hpair
      obtain ⟨-, rfl⟩ := List.cons.inj hfront
      rw [ih hfound]
      rfl

section

variable {mark blanks : List Char} (hmark : ∀ c ∈ mark, isBlank c = false)
include hmark

/-- Blanks are passed over on the way to a mark without blanks. -/
theorem cut_blank (hne : mark ≠ []) (hblanks : AllBlank blanks) (after : List Char) :
    cut mark (blanks ++ after) =
      (cut mark after).map fun found => (blanks ++ found.1, found.2) := by
  induction blanks with
  | nil => simp
  | cons c cs ih =>
      obtain ⟨hc, hcs⟩ := List.forall_mem_cons.mp hblanks
      have hnone : after? mark (c :: (cs ++ after)) = none := by
        obtain ⟨m, ms, rfl⟩ := List.exists_cons_of_ne_nil hne
        have hm : m ≠ c := by
          rintro rfl
          rw [hmark m List.mem_cons_self] at hc
          contradiction
        rw [after?, if_neg hm]
      rw [List.cons_append, cut, hnone]
      simp only [ih hcs, Option.map_map]
      rfl

/-- The same where a text without the mark stands in front of the blanks. -/
theorem cut_append_blank
    {left : List Char} (hleft : ¬ mark <:+: left) (hblanks : AllBlank blanks) (hne : blanks ≠ [])
    (after : List Char) :
    cut mark (left ++ (blanks ++ after)) =
      (cut mark after).map fun found => (left ++ (blanks ++ found.1), found.2) := by
  induction left with
  | nil =>
      have hnil : mark ≠ [] := by
        rintro rfl
        exact hleft List.nil_infix
      exact cut_blank hmark hnil hblanks after
  | cons c left ih =>
      rw [List.infix_cons_iff, not_or] at hleft
      have hhead : ∀ d ∈ (blanks ++ after).head?, d ∉ mark := by
        intro d hd hmem
        rw [List.head?_append_of_ne_nil _ hne] at hd
        have hblank := hblanks.head? d hd
        rw [hmark d hmem] at hblank
        contradiction
      have hnone : after? mark (c :: left) = none := by
        cases hafter : after? mark (c :: left) with
        | none => rfl
        | some found => exact absurd ⟨found, (eq_append_of_after? hafter).symm⟩ hleft.1
      have hmore : blanks ++ after ≠ [] := by simp [hne]
      rw [List.cons_append, cut, ← List.cons_append, after?_append_of_notMem hhead _ hmore, hnone]
      simp only [Option.map_none, ih hleft.2, Option.map_map]
      rfl

end

end Text

namespace Template

open Text

/-! ## Comments -/

theorem closeLongComment_append
    {text rest : List Char} {tilde : Bool} {close : List Char}
    (hclose : close = ['-', '-'] ++ (if tilde then ['~'] else []) ++ closeBraces)
    (h : closeLongComment (text ++ (close ++ rest)) = some (text, tilde, rest))
    (rest' : List Char) :
    closeLongComment (text ++ (close ++ rest')) = some (text, tilde, rest') := by
  induction text with
  | nil =>
      subst hclose
      cases tilde <;> rfl
  | cons c text ih =>
      have hlength : 5 ≤ (c :: (text ++ close)).length := by
        rw [hclose]
        simp [closeBraces]
        omega
      have hsplit (tail : List Char) : c :: (text ++ (close ++ tail)) =
          c :: (text ++ close) ++ tail := by simp
      -- Neither end stands here, and both are no longer than what is known of the text.
      have hnone {mark : List Char} (hmark : mark.length ≤ 5)
          (hrest : after? mark (c :: (text ++ close) ++ rest) = none) (tail : List Char) :
          after? mark (c :: (text ++ close) ++ tail) = none := by
        rw [after?_append_of_le (hmark.trans hlength)] at hrest ⊢
        rw [Option.map_eq_none_iff.mp hrest, Option.map_none]
      rw [List.cons_append, closeLongComment, hsplit] at h
      split at h
      · cases h
      · next hplain =>
          split at h
          · cases h
          · next htilde =>
              obtain ⟨⟨found, ended, later⟩, hfound, hpair⟩ := Option.map_eq_some_iff.mp h
              simp only [Prod.mk.injEq, List.cons.injEq, true_and] at hpair
              obtain ⟨rfl, rfl, rfl⟩ := hpair
              rw [List.cons_append, closeLongComment, hsplit, hnone (by decide) hplain,
                hnone (by decide) htilde]
              simp only [ih hfound, Option.map_some]

/-- A comment is read from its own text. -/
theorem closeComment_append
    {inside text rest : List Char} {tilde : Bool}
    (h : closeComment inside = some (text, tilde, rest)) :
    ∃ piece, inside = piece ++ rest ∧
      ∀ rest', closeComment (piece ++ rest') = some (text, tilde, rest') := by
  unfold closeComment at h
  split at h
  · next long hlong =>
      have hlongText := closeLongComment_eq h
      refine ⟨['-', '-'] ++ (text ++ (['-', '-'] ++ (if tilde then ['~'] else []) ++ closeBraces)),
        ?_, fun rest' => ?_⟩
      · rw [eq_append_of_after? hlong, hlongText]
        simp only [List.append_assoc]
      · rw [closeComment, List.append_assoc, after?_append]
        simp only [List.append_assoc text]
        apply closeLongComment_append rfl
        rw [hlongText] at h
        simpa only [List.append_assoc] using h
  · next hshort =>
      obtain ⟨⟨body, later⟩, hcut, hpair⟩ := Option.map_eq_some_iff.mp h
      simp only [Prod.mk.injEq] at hpair
      obtain ⟨htext, htilde, rfl⟩ := hpair
      obtain rfl : inside = body ++ (closeBraces ++ later) := by
        rw [eq_append_of_cut hcut, List.append_assoc]
      have hlength : ['-', '-'].length ≤ (body ++ closeBraces).length := by simp [closeBraces]
      refine ⟨body ++ closeBraces, by rw [List.append_assoc], fun rest' => ?_⟩
      rw [← List.append_assoc, after?_append_of_le hlength] at hshort
      rw [closeComment, after?_append_of_le hlength, Option.map_eq_none_iff.mp hshort]
      simp only [Option.map_none]
      rw [List.append_assoc, cut_append hcut, ← htext, ← htilde]
      rfl

/-! ## Marks of a tag -/

/-- What stands behind the opening braces of a tag and the tilde behind these. -/
def behindTilde (rest : List Char) : List Char :=
  (skip '~' (skip '\x7b' rest).2).2

/-- The kind that a tag announces, and what stands behind its mark. -/
def announced (rest : List Char) : TagKind × List Char :=
  if (skip '\x7b' rest).1 then (.unescaped, behindTilde rest) else sigil (behindTilde rest)

/-- Whether a tag is a comment. -/
def IsComment (rest : List Char) : Prop :=
  (skip '\x7b' rest).1 = false ∧ (behindTilde rest).head? = some '!'

theorem skip_append {mark : Char} {cs more : List Char} (h : cs ≠ [] ∨ more.head? ≠ some mark) :
    skip mark (cs ++ more) = ((skip mark cs).1, (skip mark cs).2 ++ more) := by
  cases cs with
  | nil =>
      cases more with
      | nil => rfl
      | cons c more =>
          have hc : c ≠ mark := by
            rintro rfl
            simp at h
          simp only [List.nil_append, skip, if_neg hc]
  | cons c cs =>
      rw [List.cons_append, skip, skip]
      split <;> rfl

theorem sigil_of_blank {c : Char} (hc : isBlank c = true) (cs : List Char) :
    sigil (c :: cs) = (.mustache, c :: cs) := by
  unfold sigil
  split
  case h_6 => rfl
  all_goals
    next heq =>
      cases heq
      exact absurd hc (by decide)

theorem sigil_append {cs more : List Char}
    (h : cs ≠ [] ∨ ∀ c ∈ more.head?, isBlank c = true) :
    sigil (cs ++ more) = ((sigil cs).1, (sigil cs).2 ++ more) := by
  cases cs with
  | nil =>
      cases more with
      | nil => rfl
      | cons c more =>
          have hc : isBlank c = true := by simpa using h
          rw [List.nil_append, sigil_of_blank hc]
          rfl
  | cons c cs =>
      rw [List.cons_append]
      unfold sigil
      split <;> simp_all

/-- The marks of a tag are read alike in front of a blank, or where something stands behind them. -/
structure MarksOf (lead more : List Char) : Prop where
  raw : (after? openBraces (lead ++ more)).isSome = (after? openBraces lead).isSome
  triple : (skip '\x7b' (lead ++ more)).1 = (skip '\x7b' lead).1
  tilde : (skip '~' (skip '\x7b' (lead ++ more)).2).1 = (skip '~' (skip '\x7b' lead).2).1
  behind : behindTilde (lead ++ more) = behindTilde lead ++ more
  comment : IsComment (lead ++ more) ↔ IsComment lead
  announced : announced (lead ++ more) = ((announced lead).1, (announced lead).2 ++ more)

theorem raw_append {lead more : List Char}
    (h : behindTilde lead ≠ [] ∨ ∀ c ∈ more.head?, isBlank c = true) :
    (after? openBraces (lead ++ more)).isSome = (after? openBraces lead).isSome := by
  obtain hbehind | hblank := h
  · match lead with
    | [] => exact absurd rfl hbehind
    | [c] =>
        have hc : '\x7b' ≠ c := by
          rintro rfl
          exact hbehind rfl
        simp [openBraces, after?, hc]
    | c :: d :: lead => rw [after?_append_of_le (by simp [openBraces]), Option.isSome_map]
  · cases more with
    | nil => rw [List.append_nil]
    | cons c more =>
        have hnotMem : ∀ d ∈ (c :: more).head?, d ∉ openBraces := by
          intro d hd hmem
          rw [openBraces, List.mem_cons, List.mem_singleton, or_self] at hmem
          subst hmem
          exact absurd (hblank _ hd) (by decide)
        rw [after?_append_of_notMem hnotMem _ (List.cons_ne_nil c more), Option.isSome_map]

theorem marksOf_append {lead more : List Char}
    (h : behindTilde lead ≠ [] ∨ ∀ c ∈ more.head?, isBlank c = true) : MarksOf lead more := by
  have hskip {mark : Char} {cs : List Char} (hmark : isBlank mark = false)
      (hcs : behindTilde lead ≠ [] → cs ≠ []) :
      skip mark (cs ++ more) = ((skip mark cs).1, (skip mark cs).2 ++ more) := by
    refine skip_append (h.imp hcs fun hblank hhead => ?_)
    rw [hblank mark hhead] at hmark
    contradiction
  have hbrace : skip '\x7b' (lead ++ more) =
      ((skip '\x7b' lead).1, (skip '\x7b' lead).2 ++ more) := by
    refine hskip (by decide) ?_
    rintro hbehind rfl
    exact hbehind rfl
  have htilde : skip '~' ((skip '\x7b' lead).2 ++ more) =
      ((skip '~' (skip '\x7b' lead).2).1, behindTilde lead ++ more) := by
    refine hskip (by decide) fun hbehind hnil => hbehind ?_
    rw [behindTilde, hnil]
    rfl
  have hbehind : behindTilde (lead ++ more) = behindTilde lead ++ more := by
    rw [behindTilde, hbrace, htilde]
  refine ⟨raw_append h, by rw [hbrace], by rw [hbrace, htilde], hbehind, ?_, ?_⟩
  · have hhead : (behindTilde lead ++ more).head? = some '!' ↔
        (behindTilde lead).head? = some '!' := by
      obtain hne | hblank := h
      · rw [List.head?_append_of_ne_nil _ hne]
      · cases hlead : behindTilde lead with
        | nil =>
            refine iff_of_false (fun hmark => ?_) (by simp)
            exact absurd (hblank '!' hmark) (by decide)
        | cons c cs => exact Iff.rfl
    rw [IsComment, IsComment, hbrace, hbehind, hhead]
  · rw [announced, announced, hbrace, hbehind]
    split
    · rfl
    · exact sigil_append h

/-- What is not left over stands behind the marks. -/
theorem behindTilde_ne_nil {piece after : List Char}
    (h : after.length < (behindTilde (piece ++ after)).length) : behindTilde piece ≠ [] := by
  intro hnil
  cases piece with
  | nil =>
      have hle := ((skip_suffix '~' _).trans (skip_suffix '\x7b' after)).length_le
      rw [List.nil_append, behindTilde] at h
      omega
  | cons c piece =>
      have hbrace : skip '\x7b' (c :: piece ++ after) =
          ((skip '\x7b' (c :: piece)).1, (skip '\x7b' (c :: piece)).2 ++ after) :=
        skip_append (.inl (List.cons_ne_nil c piece))
      rw [behindTilde, hbrace] at h
      by_cases hbehind : (skip '\x7b' (c :: piece)).2 = []
      · have hle := (skip_suffix '~' after).length_le
        simp only [hbehind, List.nil_append] at h
        omega
      · rw [skip_append (.inl hbehind)] at h
        rw [behindTilde] at hnil
        simp [hnil] at h

/-! ## Tags -/

open ByOffset (readComment readInside closer readTag_raw readTag_comment readTag_inside)

/-- Reads the tag of a certain kind that ends at a certain cut. -/
def closeTag (index : LineIndex) (opening : List Char) (before : Bool) (kind : TagKind) :
    Option (List Char × List Char) → Except Error (Tag × List Char)
  | none => .error { cause := .malformed .unclosedTag, span := index.between opening [] }
  | some (inside, rest) =>
      match refusedFeature? kind inside with
      | some feature =>
          .error { cause := .unsupported feature, span := index.between opening rest }
      | none =>
          match classify kind (trim (dropTilde inside).2) with
          | none => .error { cause := .malformed .emptyTag, span := index.between opening rest }
          | some (kind, body) =>
              .ok ({ kind, body := String.ofList body,
                     strip := { before, after := (dropTilde inside).1 },
                     span := index.between opening rest }, rest)

/-- A tag that is neither a raw block nor a comment is read up to the first closing braces. -/
theorem readTag_eq_closeTag
    {lead more : List Char} (h : behindTilde lead ≠ [] ∨ ∀ c ∈ more.head?, isBlank c = true)
    (hraw : ¬ (after? openBraces lead).isSome = true) (hcomment : ¬ IsComment lead)
    (index : LineIndex) :
    readTag index (lead ++ more) =
      closeTag index (openBraces ++ (lead ++ more)) (skip '~' (skip '\x7b' lead).2).1
        (announced lead).1 (cut (closer (skip '\x7b' lead).1) ((announced lead).2 ++ more)) := by
  have hmarks := marksOf_append h
  have hplain : ∀ inside, (skip '\x7b' (lead ++ more)).1 = false →
      behindTilde (lead ++ more) ≠ '!' :: inside := by
    intro inside htriple hinside
    exact hcomment (hmarks.comment.mp ⟨htriple, by rw [hinside]; rfl⟩)
  rw [readTag_inside (by rwa [hmarks.raw]) hplain, hmarks.tilde]
  have hinside : readInside index (openBraces ++ (lead ++ more)) (skip '\x7b' (lead ++ more)).1
      (skip '~' (skip '\x7b' lead).2).1 (behindTilde (lead ++ more)) =
      closeTag index (openBraces ++ (lead ++ more)) (skip '~' (skip '\x7b' lead).2).1
        (announced (lead ++ more)).1
        (cut (closer (skip '\x7b' (lead ++ more)).1) (announced (lead ++ more)).2) := rfl
  rw [hmarks.announced, hmarks.triple] at hinside
  rw [← hinside, hmarks.triple]
  rfl

/-- Two tags are the same up to their spans. -/
structure Tag.Moved (tag tag' : Tag) : Prop where
  kind : tag'.kind = tag.kind
  body : tag'.body = tag.body
  strip : tag'.strip = tag.strip

/-- Where the source goes on, and where its lines start, matters for the span only. -/
theorem closeTag_eq_ok
    {index : LineIndex} {opening after : List Char} {before : Bool} {kind : TagKind} {tag : Tag}
    {found : Option (List Char × List Char)}
    (h : closeTag index opening before kind found = .ok (tag, after)) :
    ∃ inside, found = some (inside, after) ∧
      ∀ index' opening' after', ∃ tag',
        closeTag index' opening' before kind (some (inside, after')) = .ok (tag', after') ∧
          tag.Moved tag' := by
  cases found with
  | none => cases h
  | some found =>
      obtain ⟨inside, rest⟩ := found
      rw [closeTag] at h
      split at h
      · cases h
      · next hrefused =>
          split at h
          · cases h
          · next final body hclassify =>
              cases h
              refine ⟨inside, rfl, fun index' opening' after' => ?_⟩
              simp only [closeTag, hrefused, hclassify]
              exact ⟨_, rfl, ⟨rfl, rfl, rfl⟩⟩

/-- The same for a tag that is refused. -/
theorem closeTag_eq_error
    {index : LineIndex} {opening inside after : List Char} {before : Bool} {kind : TagKind}
    {e : Error} (h : closeTag index opening before kind (some (inside, after)) = .error e) :
    e.span = index.between opening after ∧
      ∀ index' opening' after', ∃ e',
        closeTag index' opening' before kind (some (inside, after')) = .error e' := by
  rw [closeTag] at h
  split at h
  · next feature hrefused =>
      cases h
      refine ⟨rfl, fun index' opening' after' => ?_⟩
      simp only [closeTag, hrefused]
      exact ⟨_, rfl⟩
  · next hrefused =>
      split at h
      · next hclassify =>
          cases h
          refine ⟨rfl, fun index' opening' after' => ?_⟩
          simp only [closeTag, hrefused, hclassify]
          exact ⟨_, rfl⟩
      · cases h

/-! ## Texts of tags -/

theorem behindTilde_suffix (rest : List Char) : behindTilde rest <:+ rest :=
  (skip_suffix '~' _).trans (skip_suffix '\x7b' rest)

theorem announced_suffix (rest : List Char) : (announced rest).2 <:+ behindTilde rest := by
  unfold announced
  split
  · exact List.suffix_refl _
  · exact sigil_suffix _

/-- A comment is read from its own text. -/
theorem exists_commentText
    {rest body text after : List Char} {tilde : Bool}
    (hraw : ¬ (after? openBraces rest).isSome = true) (htriple : (skip '\x7b' rest).1 = false)
    (hbody : behindTilde rest = '!' :: body)
    (hclose : closeComment body = some (text, tilde, after)) :
    ∃ piece, rest = piece ++ after ∧
      ∀ index after', readTag index (piece ++ after') =
        .ok ({ kind := .comment, body := String.ofList text,
               strip := { before := (skip '~' (skip '\x7b' rest).2).1, after := tilde },
               span := index.between (openBraces ++ (piece ++ after')) after' }, after') := by
  obtain ⟨inside, rfl, hlocal⟩ := closeComment_append hclose
  obtain ⟨piece, rfl⟩ : after <:+ rest := by
    refine List.IsSuffix.trans ?_ (behindTilde_suffix rest)
    rw [hbody]
    exact List.suffix_append ('!' :: inside) after
  have hlt : after.length < (behindTilde (piece ++ after)).length := by
    rw [hbody, List.length_cons, List.length_append]
    omega
  have hmarks (more : List Char) : MarksOf piece more :=
    marksOf_append (.inl (behindTilde_ne_nil hlt))
  rw [(hmarks after).raw] at hraw
  rw [(hmarks after).triple] at htriple
  rw [(hmarks after).behind, ← List.cons_append] at hbody
  have hpiece : behindTilde piece = '!' :: inside := List.append_cancel_right hbody
  refine ⟨piece, rfl, fun index after' => ?_⟩
  have hbehind : behindTilde (piece ++ after') = '!' :: (inside ++ after') := by
    rw [(hmarks after').behind, hpiece, List.cons_append]
  rw [readTag_comment (by rwa [(hmarks after').raw]) ((hmarks after').triple.trans htriple) hbehind,
    readComment, hlocal after', (hmarks after').tilde, (hmarks after).tilde]

/-- Any other tag that is closed is read from its own text. -/
theorem exists_closedText
    {rest inside after : List Char} (hraw : ¬ (after? openBraces rest).isSome = true)
    (hcomment : ¬ IsComment rest)
    (hcut : cut (closer (skip '\x7b' rest).1) (announced rest).2 = some (inside, after)) :
    ∃ piece, rest = piece ++ after ∧
      ∀ index after', readTag index (piece ++ after') =
        closeTag index (openBraces ++ (piece ++ after')) (skip '~' (skip '\x7b' rest).2).1
          (announced rest).1 (some (inside, after')) := by
  obtain ⟨piece, rfl⟩ : after <:+ rest :=
    (cut_suffix hcut).trans ((announced_suffix rest).trans (behindTilde_suffix rest))
  have hlt : after.length < (behindTilde (piece ++ after)).length := by
    have hlength := length_lt_of_cut hcut (by unfold closer; split <;> decide)
    exact Nat.lt_of_lt_of_le hlength (announced_suffix _).length_le
  have hbehind : behindTilde piece ≠ [] := behindTilde_ne_nil hlt
  have hmarks : MarksOf piece after := marksOf_append (.inl hbehind)
  rw [hmarks.raw] at hraw
  rw [hmarks.comment] at hcomment
  rw [hmarks.triple, hmarks.announced] at hcut
  refine ⟨piece, rfl, fun index after' => ?_⟩
  have hinside : (announced piece).2 = inside ++ closer (skip '\x7b' piece).1 :=
    List.append_cancel_right (eq_append_of_cut hcut)
  rw [hinside, List.append_assoc] at hcut
  rw [readTag_eq_closeTag (.inl hbehind) hraw hcomment, hinside, List.append_assoc, cut_append hcut,
    hmarks.tilde, hmarks.announced]

section

variable {index : LineIndex} {rest : List Char}

/-- A tag that is neither a raw block nor a comment, with nothing set apart at its end. -/
theorem readTag_plain (hraw : ¬ (after? openBraces rest).isSome = true)
    (hcomment : ¬ IsComment rest) :
    readTag index rest =
      closeTag index (openBraces ++ rest) (skip '~' (skip '\x7b' rest).2).1 (announced rest).1
        (cut (closer (skip '\x7b' rest).1) (announced rest).2) := by
  have hread := @readTag_eq_closeTag rest [] (.inr (by simp)) hraw hcomment index
  simpa only [List.append_nil] using hread

/-- A tag is read from its own text. -/
theorem readTag_append
    {after : List Char} {tag : Tag} (h : readTag index rest = .ok (tag, after)) :
    ∃ piece, rest = piece ++ after ∧
      ∀ index' after', ∃ tag',
        readTag index' (piece ++ after') = .ok (tag', after') ∧ tag.Moved tag' := by
  by_cases hraw : (after? openBraces rest).isSome = true
  · rw [readTag_raw hraw] at h
    cases h
  by_cases hcomment : IsComment rest
  · obtain ⟨htriple, hmark⟩ := hcomment
    obtain ⟨body, hbody⟩ := List.head?_eq_some_iff.mp hmark
    rw [readTag_comment hraw htriple hbody, readComment] at h
    split at h
    · cases h
    · next text tilde later hclose =>
        cases h
        obtain ⟨piece, hpiece, hlocal⟩ := exists_commentText hraw htriple hbody hclose
        exact ⟨piece, hpiece, fun index' after' => ⟨_, hlocal index' after', rfl, rfl, rfl⟩⟩
  · rw [readTag_plain hraw hcomment] at h
    obtain ⟨inside, hcut, hclosed⟩ := closeTag_eq_ok h
    obtain ⟨piece, hpiece, hlocal⟩ := exists_closedText hraw hcomment hcut
    refine ⟨piece, hpiece, fun index' after' => ?_⟩
    rw [hlocal]
    exact hclosed index' _ after'

/-- A tag that is refused is so for its own text, or it is not closed. -/
theorem readTag_error_append {e : Error} (h : readTag index rest = .error e) :
    ∃ after, e.span = index.between (openBraces ++ rest) after ∧
      (after = [] ∨ ∃ piece, rest = piece ++ after ∧
        ∀ index' after', ∃ e', readTag index' (piece ++ after') = .error e') := by
  by_cases hraw : (after? openBraces rest).isSome = true
  · rw [readTag_raw hraw, cut_opening] at h
    cases h
    refine ⟨_, rfl, ?_⟩
    cases hcut : cut (closeBraces ++ closeBraces) rest with
    | none => exact .inl rfl
    | some found =>
        obtain ⟨before, after⟩ := found
        refine .inr ⟨before ++ (closeBraces ++ closeBraces), eq_append_of_cut hcut, ?_⟩
        intro index' after'
        have hlength : openBraces.length ≤ (before ++ (closeBraces ++ closeBraces)).length := by
          simp [openBraces, closeBraces]
        rw [eq_append_of_cut hcut, after?_append_of_le hlength, Option.isSome_map] at hraw
        exact ⟨_, readTag_raw (by rwa [after?_append_of_le hlength, Option.isSome_map])⟩
  by_cases hcomment : IsComment rest
  · obtain ⟨htriple, hmark⟩ := hcomment
    obtain ⟨body, hbody⟩ := List.head?_eq_some_iff.mp hmark
    rw [readTag_comment hraw htriple hbody, readComment] at h
    split at h
    · cases h
      exact ⟨[], rfl, .inl rfl⟩
    · cases h
  · rw [readTag_plain hraw hcomment] at h
    cases hcut : cut (closer (skip '\x7b' rest).1) (announced rest).2 with
    | none =>
        rw [hcut] at h
        cases h
        exact ⟨[], rfl, .inl rfl⟩
    | some found =>
        obtain ⟨inside, after⟩ := found
        rw [hcut] at h
        obtain ⟨hspan, hclosed⟩ := closeTag_eq_error h
        obtain ⟨piece, hpiece, hlocal⟩ := exists_closedText hraw hcomment hcut
        refine ⟨after, hspan, .inr ⟨piece, hpiece, fun index' after' => ?_⟩⟩
        rw [hlocal]
        exact hclosed index' _ after'

end

end Template
end TemplateModules
