import TemplateModules.Proofs.Template.Offsets
import TemplateModules.Proofs.Template.Pieces

/-!
# Tags by offsets

Reading a tag by offsets is reading it from the part of the source that is left: every offset is
that of a part, and every slice is made between the offsets of two parts.
-/

namespace TemplateModules
namespace Template
namespace ByOffset

open Text

/-- The offset at which a closing part of a source starts. -/
def offset (source part : List Char) : Nat :=
  byteSize source - byteSize part

variable {source part piece later : List Char}

theorem offset_append (front part : List Char) : offset (front ++ part) part = byteSize front := by
  rw [offset, byteSize_append, Nat.add_sub_cancel]

@[simp]
theorem offset_nil (source : List Char) : offset source [] = byteSize source := rfl

/-- A piece of a source lies between two offsets. -/
theorem offset_add (h : piece ++ later <:+ source) :
    offset source (piece ++ later) + byteSize piece = offset source later := by
  obtain ⟨front, rfl⟩ := h
  rw [offset_append, ← List.append_assoc, offset_append, byteSize_append]

theorem offset_cons {c : Char} (h : c :: later <:+ source) (hc : c.utf8Size = 1) :
    offset source (c :: later) + 1 = offset source later := by
  rw [← @offset_add source [c] later h, byteSize_cons, hc]
  rfl

theorem slice_offset (h : piece ++ later <:+ source) :
    slice source (offset source (piece ++ later)) (offset source later) = .ok piece := by
  rw [← offset_add h]
  obtain ⟨front, rfl⟩ := h
  rw [offset_append, slice_eq_ok, ← List.append_assoc]
  exact slice?_append front piece later

theorem sliceFrom_offset (h : part <:+ source) :
    sliceFrom source (offset source part) = .ok part := by
  have hpart : part ++ [] <:+ source := by simpa using h
  simpa [sliceFrom] using slice_offset hpart

theorem find?_of_cut {mark before rest : List Char} (h : cut mark part = some (before, rest)) :
    find? mark part = some (byteSize before) := by
  rw [find?, h]
  rfl

theorem find?_of_none {mark : List Char} (h : cut mark part = none) : find? mark part = none := by
  rw [find?, h]
  rfl

/-- Where a mark stands, and where the source goes on behind it. -/
theorem offset_of_cut
    {mark before rest : List Char} (h : part <:+ source)
    (hcut : cut mark part = some (before, rest)) :
    mark ++ rest <:+ source ∧
      offset source part + byteSize before = offset source (mark ++ rest) ∧
      offset source (mark ++ rest) + byteSize mark = offset source rest := by
  obtain rfl : part = before ++ (mark ++ rest) := by
    rw [eq_append_of_cut hcut, List.append_assoc]
  have hmark := (List.suffix_append before (mark ++ rest)).trans h
  exact ⟨hmark, offset_add h, offset_add hmark⟩

theorem startsWith_append (lead rest : List Char) : startsWith (lead ++ rest) lead = true := by
  rw [startsWith, after?_append]
  rfl

/-- Skipping a mark adds its width to the offset. -/
theorem offset_skip (mark : Char) (h : part <:+ source) (hmark : mark.utf8Size = 1) :
    (if (skip mark part).1 then offset source part + 1 else offset source part) =
      offset source (skip mark part).2 := by
  cases part with
  | nil => rfl
  | cons c cs =>
      by_cases hc : c = mark
      · subst hc
        rw [skip, if_pos rfl]
        exact offset_cons h hmark
      · rw [skip, if_neg hc]
        rfl

theorem startsWith_eq_skip (mark : Char) (part : List Char) :
    startsWith part [mark] = (skip mark part).1 := by
  cases part with
  | nil => rfl
  | cons c cs =>
      by_cases hc : mark = c
      · simp [startsWith, after?, skip, hc]
      · simp [startsWith, after?, skip, hc, Ne.symm hc]

/-! ## Comments -/

theorem after?_append_lead (lead more cs : List Char) :
    after? (lead ++ more) cs = (after? lead cs).bind (after? more) := by
  induction lead generalizing cs with
  | nil => rfl
  | cons m ms ih =>
      cases cs with
      | nil => rfl
      | cons c cs =>
          by_cases hmc : m = c
          · simp [after?, hmc, ih]
          · simp [after?, hmc]

/-- No long comment ends at a place without two dashes. -/
theorem closeLongComment_cons {c : Char} {cs : List Char} (h : after? ['-', '-'] (c :: cs) = none) :
    closeLongComment (c :: cs) =
      (closeLongComment cs).map fun (text, tilde, rest) => (c :: text, tilde, rest) := by
  have hplain := after?_append_lead ['-', '-'] closeBraces (c :: cs)
  have htilde := after?_append_lead ['-', '-'] ('~' :: closeBraces) (c :: cs)
  rw [h] at hplain htilde
  rw [closeLongComment]
  simp only [List.cons_append, List.nil_append, Option.bind_none] at hplain htilde
  rw [hplain, htilde]

theorem closeLongComment_of_cut
    {before rest : List Char} (h : cut ['-', '-'] part = some (before, rest)) :
    closeLongComment part =
      (closeLongComment ('-' :: '-' :: rest)).map fun (text, tilde, after) =>
        (before ++ text, tilde, after) := by
  induction part generalizing before with
  | nil => simp [cut, after?] at h
  | cons c cs ih =>
      rw [cut] at h
      split at h
      · next found hfound =>
          obtain ⟨rfl, rfl⟩ := Prod.mk.inj (Option.some.inj h)
          rw [eq_append_of_after? hfound]
          exact Option.map_id'.symm
      · next hnone =>
          obtain ⟨⟨inner, found⟩, hcut, hpair⟩ := Option.map_eq_some_iff.mp h
          obtain ⟨rfl, rfl⟩ := Prod.mk.inj hpair
          rw [closeLongComment_cons hnone, ih hcut, Option.map_map]
          rfl

theorem closeLongComment_of_none (h : cut ['-', '-'] part = none) :
    closeLongComment part = none := by
  induction part with
  | nil => rfl
  | cons c cs ih =>
      rw [cut] at h
      split at h
      · cases h
      · next hnone =>
          rw [closeLongComment_cons hnone, ih (Option.map_eq_none_iff.mp h)]
          rfl

/-- The end of a long comment that is tested right behind two dashes. -/
theorem closeLongComment_dashes (rest : List Char) :
    closeLongComment ('-' :: '-' :: rest) =
      match after? closeBraces rest, after? ('~' :: closeBraces) rest with
      | some after, _ => some ([], false, after)
      | none, some after => some ([], true, after)
      | none, none =>
          (closeLongComment ('-' :: rest)).map fun (text, tilde, after) =>
            ('-' :: text, tilde, after) := by
  have hplain := after?_append_lead ['-', '-'] closeBraces ('-' :: '-' :: rest)
  have htilde := after?_append_lead ['-', '-'] ('~' :: closeBraces) ('-' :: '-' :: rest)
  simp only [after?, if_true, Option.bind_some, List.cons_append, List.nil_append] at hplain htilde
  rw [closeLongComment]
  simp only [after?, if_true]
  cases hafter : after? closeBraces rest with
  | some after => rfl
  | none =>
      cases htail : after? ('~' :: closeBraces) rest with
      | some after => rfl
      | none => rfl

/-- Two dashes that are found by their offset stand in front of the same rest. -/
theorem dashes_of_find?
    {start place : Nat} {found : List Char} {x : Except Halt (List Char)}
    (h : part <:+ source) (hstart : start = offset source part)
    (hpart : sliceFrom source start = .ok found) (hfind : find? ['-', '-'] found = some place)
    (hrest : sliceFrom source (start + place + 2) = x) :
    ∃ before rest,
      x = .ok rest ∧ place = byteSize before ∧ '-' :: '-' :: rest <:+ source ∧
      start + place = offset source ('-' :: '-' :: rest) ∧
      closeLongComment part =
        (closeLongComment ('-' :: '-' :: rest)).map fun (text, tilde, after) =>
          (before ++ text, tilde, after) := by
  rw [hstart, sliceFrom_offset h] at hpart
  obtain rfl := Except.ok.inj hpart
  obtain ⟨⟨before, rest⟩, hcut, rfl⟩ := Option.map_eq_some_iff.mp hfind
  obtain ⟨hsuffix, hplace, hbehind⟩ := offset_of_cut h hcut
  have hrestOffset : start + byteSize before + 2 = offset source rest := by
    rw [hstart, hplace, ← hbehind]
    rfl
  rw [hrestOffset, sliceFrom_offset ((List.suffix_append _ _).trans hsuffix)] at hrest
  exact ⟨before, rest, hrest.symm, rfl, hsuffix, hstart ▸ hplace, closeLongComment_of_cut hcut⟩

/-- The search for the end of a long comment finds the end that walking its text finds. -/
theorem closeDashes_eq {start : Nat} (h : part <:+ source) (hstart : start = offset source part) :
    closeDashes source start =
      .ok ((closeLongComment part).map fun (text, tilde, rest) =>
        (start + byteSize text, offset source rest, tilde)) := by
  fun_induction closeDashes source start generalizing part with
  | case1 start e hpart =>
      rw [hstart, sliceFrom_offset h] at hpart
      cases hpart
  | case2 start found hpart hfind =>
      rw [hstart, sliceFrom_offset h] at hpart
      obtain rfl := Except.ok.inj hpart
      have hnone : cut ['-', '-'] part = none := Option.map_eq_none_iff.mp hfind
      rw [closeLongComment_of_none hnone]
      rfl
  | case3 start found hpart place hfind e hrest =>
      obtain ⟨before, rest, hx, -⟩ := dashes_of_find? h hstart hpart hfind hrest
      cases hx
  | case4 start found hpart place hfind behind hrest hplain =>
      obtain ⟨before, rest, hx, rfl, hsuffix, hplace, hclose⟩ :=
        dashes_of_find? h hstart hpart hfind hrest
      obtain rfl := Except.ok.inj hx
      obtain ⟨after, hafter⟩ := Option.isSome_iff_exists.mp hplain
      rw [hclose, closeLongComment_dashes, hafter]
      obtain rfl := eq_append_of_after? hafter
      have hstop : offset source ('-' :: '-' :: (closeBraces ++ after)) + 4 =
          offset source after := @offset_add source (['-', '-'] ++ closeBraces) after hsuffix
      simp only [Option.map_some, List.append_nil, hplace]
      rw [← hstop]
  | case5 start found hpart place hfind behind hrest hplain htilde =>
      obtain ⟨before, rest, hx, rfl, hsuffix, hplace, hclose⟩ :=
        dashes_of_find? h hstart hpart hfind hrest
      obtain rfl := Except.ok.inj hx
      have hnone : after? closeBraces behind = none := by simpa [startsWith] using hplain
      obtain ⟨after, hafter⟩ := Option.isSome_iff_exists.mp htilde
      rw [hclose, closeLongComment_dashes, hnone, hafter]
      obtain rfl := eq_append_of_after? hafter
      have hstop : offset source ('-' :: '-' :: ('~' :: closeBraces ++ after)) + 5 =
          offset source after := @offset_add source (['-', '-', '~'] ++ closeBraces) after hsuffix
      simp only [Option.map_some, List.append_nil, hplace]
      rw [← hstop]
  | case6 start found hpart place hfind behind hrest hplain htilde hlt ih =>
      obtain ⟨before, rest, hx, rfl, hsuffix, hplace, hclose⟩ :=
        dashes_of_find? h hstart hpart hfind hrest
      obtain rfl := Except.ok.inj hx
      have hnone : after? closeBraces behind = none := by simpa [startsWith] using hplain
      have hnone' : after? ('~' :: closeBraces) behind = none := by simpa [startsWith] using htilde
      have hnext : start + byteSize before + 1 = offset source ('-' :: behind) := by
        rw [hplace]
        exact offset_cons hsuffix rfl
      rw [ih ((List.suffix_cons _ _).trans hsuffix) hnext, hclose, closeLongComment_dashes, hnone,
        hnone', Option.map_map, Option.map_map]
      congr 1
      apply Option.map_congr
      rintro ⟨text, tilde, after⟩ -
      simp only [Function.comp_apply, byteSize_append, byteSize_cons, Prod.mk.injEq, and_true]
      rw [show Char.utf8Size '-' = 1 from rfl]
      omega

theorem endsWithTilde_eq {text : List Char} (h : text ++ later <:+ source) :
    endsWithTilde source (offset source (text ++ later)) (offset source later) =
      .ok (dropTilde text).1 := by
  rw [endsWithTilde, ← offset_add h]
  rcases List.eq_nil_or_concat text with rfl | ⟨lead, c, rfl⟩
  · rw [byteSize_nil, if_neg (by omega)]
    rfl
  · have hpos := c.utf8Size_pos
    obtain ⟨front, rfl⟩ := h
    rw [offset_append, List.concat_eq_append, byteSize_append, byteSize_cons, if_pos (by omega)]
    have hslice := slice?_append [] (front ++ (lead ++ [c])) later
    have hlast : (front ++ (lead ++ [c])).getLast? = some c := by
      rw [← List.append_assoc, List.getLast?_concat]
    rw [List.nil_append, List.append_assoc, byteSize_nil, Nat.zero_add, byteSize_append,
      byteSize_append, byteSize_cons] at hslice
    rw [slice_eq_ok.mpr hslice]
    simp only [bind, Except.bind, hlast, dropTilde, List.getLast?_concat]
    split <;> simp_all [pure, Except.pure]

/-- A text before a tilde at the end of a slice. -/
theorem slice_dropTilde {text : List Char} (h : text ++ later <:+ source) :
    slice source (offset source (text ++ later))
        (if (dropTilde text).1 then offset source later - 1 else offset source later) =
      .ok (dropTilde text).2 := by
  unfold dropTilde
  split
  · next hlast =>
      obtain ⟨lead, rfl⟩ := List.getLast?_eq_some_iff.mp hlast
      have htilde : lead ++ ('~' :: later) <:+ source := by simpa using h
      have hstop := offset_cons ((List.suffix_append _ _).trans htilde) rfl
      have hslice := slice_offset htilde
      simp only [if_true, List.dropLast_concat, List.append_assoc, List.cons_append,
        List.nil_append, ← hstop, Nat.add_sub_cancel]
      exact hslice
  · exact slice_offset h

theorem longCommentBounds_eq {text : List Char} (h : '-' :: '-' :: text <:+ source) :
    commentBounds source (offset source ('-' :: '-' :: text)) =
      .ok ((closeLongComment text).map fun (body, tilde, rest) =>
        (offset source text, offset source text + byteSize body, offset source rest, tilde)) := by
  have hstart : offset source ('-' :: '-' :: text) + 2 = offset source text :=
    @offset_add source ['-', '-'] text h
  have htext := (List.suffix_append ['-', '-'] text).trans h
  have hlead : startsWith ('-' :: '-' :: text) ['-', '-'] = true := startsWith_append _ text
  rw [commentBounds, sliceFrom_offset h]
  simp only [bind, Except.bind, hlead, if_true, hstart]
  rw [closeDashes_eq htext rfl]
  simp only [pure, Except.pure, Option.map_map]
  rfl

theorem shortCommentBounds_eq {inside : List Char} (h : inside <:+ source)
    (hshort : after? ['-', '-'] inside = none) :
    commentBounds source (offset source inside) =
      .ok ((cut closeBraces inside).map fun (text, rest) =>
        (offset source inside,
          if (dropTilde text).1 then offset source inside + byteSize text - 1
          else offset source inside + byteSize text,
          offset source rest, (dropTilde text).1)) := by
  have hlead : startsWith inside ['-', '-'] = false := by simp [startsWith, hshort]
  rw [commentBounds, sliceFrom_offset h]
  simp only [bind, Except.bind, hlead, Bool.false_eq_true, if_false]
  cases hcut : cut closeBraces inside with
  | none =>
      rw [find?_of_none hcut]
      rfl
  | some found =>
      obtain ⟨text, rest⟩ := found
      obtain ⟨hsuffix, hplace, hbehind⟩ := offset_of_cut h hcut
      have hinside : inside = text ++ (closeBraces ++ rest) := by
        rw [eq_append_of_cut hcut, List.append_assoc]
      have htilde := endsWithTilde_eq (hinside ▸ h)
      rw [← hinside, ← hplace] at htilde
      have hstop : offset source inside + byteSize text + 2 = offset source rest := by
        rw [hplace, ← hbehind]
        rfl
      rw [find?_of_cut hcut]
      simp only [htilde, Option.map_some, hstop]
      cases (dropTilde text).1 with
      | true => rfl
      | false => rfl

/-- The text and the end of a comment lie between the bounds that are found for it. -/
theorem commentBounds_eq {inside : List Char} (h : inside <:+ source) :
    match closeComment inside with
    | none => commentBounds source (offset source inside) = .ok none
    | some (text, tilde, rest) =>
        ∃ first last,
          commentBounds source (offset source inside) =
            .ok (some (first, last, offset source rest, tilde)) ∧
          slice source first last = .ok text := by
  unfold closeComment
  cases hlead : after? ['-', '-'] inside with
  | some text =>
      obtain rfl : inside = '-' :: '-' :: text := eq_append_of_after? hlead
      have hbounds := longCommentBounds_eq h
      have htext := (List.suffix_append ['-', '-'] text).trans h
      cases hclose : closeLongComment text with
      | none =>
          rw [hclose] at hbounds
          simp only [hclose]
          exact hbounds
      | some found =>
          obtain ⟨body, tilde, rest⟩ := found
          rw [hclose] at hbounds
          have hbody := closeLongComment_eq hclose
          simp only [List.append_assoc] at hbody
          rw [hbody] at htext
          have hslice := slice_offset htext
          rw [← offset_add htext, ← hbody] at hslice
          simp only [hclose]
          exact ⟨_, _, hbounds, hslice⟩
  | none =>
      have hbounds := shortCommentBounds_eq h hlead
      cases hcut : cut closeBraces inside with
      | none => rw [hbounds, hcut]; rfl
      | some found =>
          obtain ⟨text, rest⟩ := found
          obtain ⟨hsuffix, hplace, hbehind⟩ := offset_of_cut h hcut
          have hinside : inside = text ++ (closeBraces ++ rest) := by
            rw [eq_append_of_cut hcut, List.append_assoc]
          have hslice := slice_dropTilde (hinside ▸ h)
          rw [← hinside, ← hplace] at hslice
          rw [hcut] at hbounds
          exact ⟨_, _, hbounds, hslice⟩

/-! ## Parts of a tag -/

/-- Reads the inside of a comment. -/
def readComment (index : LineIndex) (opening : List Char) (before : Bool) (inside : List Char) :
    Except Error (Tag × List Char) :=
  match closeComment inside with
  | none =>
      .error { cause := .malformed .unclosedComment, span := index.between opening [] }
  | some (text, after, rest) =>
      .ok ({ kind := .comment, body := String.ofList text, strip := { before, after },
             span := index.between opening rest }, rest)

/-- Reads the inside of a tag that is not a comment. -/
def readInside (index : LineIndex) (opening : List Char) (triple before : Bool)
    (rest : List Char) : Except Error (Tag × List Char) :=
  let fail (cause : Cause) (stop : List Char) : Except Error (Tag × List Char) :=
    .error { cause, span := index.between opening stop }
  let (kind, rest) := if triple then (.unescaped, rest) else sigil rest
  match cut (closer triple) rest with
  | none => fail (.malformed .unclosedTag) []
  | some (inside, rest) =>
      match refusedFeature? kind inside with
      | some feature => fail (.unsupported feature) rest
      | none =>
          match classify kind (trim (dropTilde inside).2) with
          | none => fail (.malformed .emptyTag) rest
          | some (kind, body) =>
              .ok ({ kind, body := String.ofList body,
                     strip := { before, after := (dropTilde inside).1 },
                     span := index.between opening rest }, rest)

theorem readTag_raw {index : LineIndex} {rest : List Char}
    (h : (after? openBraces rest).isSome = true) :
    readTag index rest =
      .error
        { cause := .unsupported .rawBlocks,
          span := index.between (openBraces ++ rest)
            (((cut (closeBraces ++ closeBraces) (openBraces ++ rest)).map Prod.snd).getD []) } := by
  rw [readTag, if_pos h]

theorem readTag_comment {index : LineIndex} {rest inside : List Char}
    (h : ¬ (after? openBraces rest).isSome = true)
    (htriple : (skip '\x7b' rest).1 = false)
    (hinside : (skip '~' (skip '\x7b' rest).2).2 = '!' :: inside) :
    readTag index rest =
      readComment index (openBraces ++ rest) (skip '~' (skip '\x7b' rest).2).1 inside := by
  rw [readTag, if_neg h]
  simp only [htriple, hinside]
  rfl

theorem readTag_inside {index : LineIndex} {rest : List Char}
    (h : ¬ (after? openBraces rest).isSome = true)
    (hplain : ∀ inside, (skip '\x7b' rest).1 = false →
      (skip '~' (skip '\x7b' rest).2).2 ≠ '!' :: inside) :
    readTag index rest =
      readInside index (openBraces ++ rest) (skip '\x7b' rest).1 (skip '~' (skip '\x7b' rest).2).1
        (skip '~' (skip '\x7b' rest).2).2 := by
  rw [readTag, if_neg h]
  dsimp only
  split
  · next inside htriple hinside => exact (hplain inside htriple hinside).elim
  · rfl

/-! ## Tags -/

/-- What is read, with the offset where the source goes on. -/
def placed (source : List Char) : Except Error (Tag × List Char) → Except Halt (Tag × Nat)
  | .error e => .error (.refused e)
  | .ok (tag, after) => .ok (tag, offset source after)

theorem lexComment_eq {opening inside : List Char} {before : Bool} (h : inside <:+ source) :
    lexComment (LineIndex.ofSource source) source (offset source opening) (offset source inside)
        before =
      placed source (readComment (LineIndex.ofSource source) opening before inside) := by
  have hbounds := commentBounds_eq h
  unfold lexComment readComment
  split at hbounds
  · next hclose =>
      rw [hbounds]
      rfl
  · next text tilde rest hclose =>
      obtain ⟨first, last, hfound, hslice⟩ := hbounds
      rw [hfound]
      simp only [bind, Except.bind, hslice]
      rfl

theorem openingMarks_eq {rest : List Char} (h : openBraces ++ rest <:+ source) :
    openingMarks source (offset source (openBraces ++ rest)) =
      .ok ((skip '\x7b' rest).1, (skip '~' (skip '\x7b' rest).2).1,
        offset source (skip '~' (skip '\x7b' rest).2).2) := by
  have hrest := (List.suffix_append openBraces rest).trans h
  have hopen : offset source (openBraces ++ rest) + 2 = offset source rest := offset_add h
  have hbrace := offset_skip '\x7b' hrest rfl
  have hmarked := (skip_suffix '\x7b' rest).trans hrest
  have htilde := offset_skip '~' hmarked rfl
  rw [openingMarks, hopen]
  simp only [bind, Except.bind, sliceFrom_offset hrest, startsWith_eq_skip, hbrace,
    sliceFrom_offset hmarked, htilde]
  rfl

/-- The mark of a tag is one byte, unless there is none. -/
theorem sigil_cases (rest : List Char) :
    (∃ c cs, rest = c :: cs ∧ c.utf8Size = 1 ∧ sigil rest = (kindOf (some c), cs) ∧
      kindOf (some c) ≠ .mustache) ∨
    sigil rest = (.mustache, rest) ∧ kindOf rest.head? = .mustache := by
  unfold sigil
  split
  · exact .inl ⟨_, _, rfl, rfl, rfl, by decide⟩
  · exact .inl ⟨_, _, rfl, rfl, rfl, by decide⟩
  · exact .inl ⟨_, _, rfl, rfl, rfl, by decide⟩
  · exact .inl ⟨_, _, rfl, rfl, rfl, by decide⟩
  · exact .inl ⟨_, _, rfl, rfl, rfl, by decide⟩
  · refine .inr ⟨rfl, ?_⟩
    cases rest with
    | nil => rfl
    | cons c cs =>
        rw [List.head?_cons]
        unfold kindOf
        split <;> simp_all

theorem announced_eq {rest : List Char} {triple : Bool} (h : rest <:+ source) :
    announced source (offset source rest) triple =
      .ok ((if triple then (.unescaped, rest) else sigil rest).1,
        offset source (if triple then (TagKind.unescaped, rest) else sigil rest).2) := by
  cases triple with
  | true => rfl
  | false =>
      rw [announced, sliceFrom_offset h]
      obtain ⟨c, cs, rfl, hc, hsigil, hkind⟩ | ⟨hsigil, hkind⟩ := sigil_cases rest
      · simp only [Bool.false_eq_true, if_false, hsigil, bind, Except.bind, List.head?_cons, hkind,
          offset_cons h hc]
        rfl
      · simp only [Bool.false_eq_true, if_false, hsigil, bind, Except.bind, hkind, if_true]
        rfl

theorem sliceFrom_elseWord (rest : List Char) :
    sliceFrom (elseWord ++ rest) (byteSize elseWord) = .ok rest := by
  have hslice := sliceFrom_offset (List.suffix_append elseWord rest)
  rwa [offset_append] at hslice

/-- Behind the word `else`, the blanks before what it chains are trimmed with or without the first
one. -/
theorem finalKind_mustache (body : List Char) :
    finalKind .mustache body =
      .ok (match after? elseWord body with
        | some [] => (.alternative, [])
        | some (' ' :: chained) => (.alternative, trim chained)
        | _ => (.mustache, body)) := by
  have hword : startsWith body (elseWord ++ [' ']) =
      ((after? elseWord body).bind (after? [' '])).isSome := by
    rw [startsWith, after?_append_lead]
  rw [finalKind, hword]
  cases hafter : after? elseWord body with
  | none =>
      have hbody : body ≠ elseWord := by
        rintro rfl
        simp [elseWord, after?] at hafter
      simp [hbody]
      rfl
  | some rest =>
      obtain rfl := eq_append_of_after? hafter
      rcases rest with _ | ⟨c, cs⟩
      · rw [if_pos ⟨rfl, .inl (List.append_nil _)⟩, sliceFrom_elseWord]
        rfl
      · by_cases hc : c = ' '
        · subst hc
          rw [if_pos ⟨rfl, .inr rfl⟩, sliceFrom_elseWord]
          rfl
        · have hnot : ¬ (elseWord ++ c :: cs = elseWord ∨ (after? [' '] (c :: cs)).isSome) := by
            simp [after?, Ne.symm hc]
          rw [if_neg fun h => hnot h.2, if_neg (by simp)]
          simp [hc, pure, Except.pure]

theorem finalKind_eq (kind : TagKind) (body : List Char) :
    ∃ final,
      finalKind kind body = .ok final ∧
      classify kind body =
        if final.2.isEmpty && decide (final.1 ≠ .alternative) then none else some final := by
  by_cases hmustache : kind = .mustache
  · subst hmustache
    refine ⟨_, finalKind_mustache body, ?_⟩
    unfold classify
    rcases after? elseWord body with _ | _ | ⟨c, cs⟩
    · rfl
    · rfl
    · by_cases hc : c = ' '
      · subst hc
        rfl
      · simp [hc]
  · rw [finalKind, if_neg fun h => hmustache h.1]
    by_cases hinverse : kind = .inverse ∧ body.isEmpty
    · rw [if_pos hinverse]
      refine ⟨_, rfl, ?_⟩
      obtain ⟨rfl, hempty⟩ := hinverse
      simp [classify, hempty]
    · rw [if_neg hinverse]
      refine ⟨_, rfl, ?_⟩
      unfold classify
      cases kind <;> simp_all

theorem refusedFeature?_cons (kind : TagKind) (c : Char) (cs ds : List Char) :
    refusedFeature? kind (c :: cs) = refusedFeature? kind (c :: ds) := by
  by_cases hinclusion : c = '>'
  · subst hinclusion
    cases kind <;> rfl
  · by_cases hdecorator : c = '*'
    · subst hdecorator
      cases kind <;> rfl
    · cases kind <;> simp [refusedFeature?, hinclusion, hdecorator]

/-- Whether a feature is refused is seen from the first character. -/
theorem refusedFeature?_of_cut
    {kind : TagKind} {triple : Bool} {inside rest : List Char}
    (h : cut (closer triple) part = some (inside, rest)) :
    refusedFeature? kind part = refusedFeature? kind inside := by
  rw [eq_append_of_cut h]
  cases inside with
  | nil => cases kind <;> cases triple <;> rfl
  | cons c cs => exact refusedFeature?_cons kind c _ cs

theorem lexInside_eq
    {opening rest : List Char} {triple before : Bool} (h : rest <:+ source) :
    lexInside (LineIndex.ofSource source) source (offset source opening) (offset source rest)
        triple before =
      placed source (readInside (LineIndex.ofSource source) opening triple before rest) := by
  unfold lexInside readInside
  rw [announced_eq h]
  have hmarked : (if triple then (TagKind.unescaped, rest) else sigil rest).2 <:+ source := by
    split
    · exact h
    · exact (sigil_suffix rest).trans h
  generalize (if triple then (TagKind.unescaped, rest) else sigil rest) = marked at hmarked ⊢
  obtain ⟨kind, part⟩ := marked
  simp only [bind, Except.bind, sliceFrom_offset hmarked]
  cases hcut : cut (closer triple) part with
  | none =>
      rw [find?_of_none hcut]
      rfl
  | some found =>
      obtain ⟨inside, later⟩ := found
      obtain ⟨hsuffix, hplace, hbehind⟩ := offset_of_cut hmarked hcut
      have hpart : part = inside ++ (closer triple ++ later) := by
        rw [eq_append_of_cut hcut, List.append_assoc]
      have hslice := slice_offset (hpart ▸ hmarked)
      rw [← hpart] at hslice
      simp only [find?_of_cut hcut, refusedFeature?_of_cut hcut, hplace, hbehind, hslice]
      cases refusedFeature? kind inside with
      | some feature => rfl
      | none =>
          obtain ⟨⟨final, body⟩, hfinal, hclassify⟩ :=
            finalKind_eq kind (trim (dropTilde inside).2)
          simp only [hfinal, hclassify]
          by_cases hempty : (body.isEmpty && decide (final ≠ .alternative)) = true
          · rw [if_pos hempty, if_pos hempty]
            rfl
          · rw [if_neg hempty, if_neg hempty]
            rfl

/-- A tag is the same by offsets as in the part of the source that is left. -/
theorem lexTag_eq {rest : List Char} (h : openBraces ++ rest <:+ source) :
    lexTag (LineIndex.ofSource source) source (offset source (openBraces ++ rest)) =
      placed source (readTag (LineIndex.ofSource source) rest) := by
  have hrest := (List.suffix_append openBraces rest).trans h
  have hinside : (skip '~' (skip '\x7b' rest).2).2 <:+ source :=
    (skip_suffix '~' _).trans ((skip_suffix '\x7b' rest).trans hrest)
  have hraw : startsWith (openBraces ++ rest) (openBraces ++ openBraces) =
      (after? openBraces rest).isSome := by
    rw [startsWith, after?_append_lead, after?_append]
    rfl
  rw [lexTag, sliceFrom_offset h]
  simp only [bind, Except.bind, hraw, openingMarks_eq h, sliceFrom_offset hinside]
  split
  · next hblock =>
      rw [readTag_raw hblock]
      cases hcut : cut (closeBraces ++ closeBraces) (openBraces ++ rest) with
      | none =>
          rw [find?_of_none hcut]
          rfl
      | some found =>
          obtain ⟨before, later⟩ := found
          obtain ⟨-, hplace, hbehind⟩ := offset_of_cut h hcut
          have hstop : offset source (openBraces ++ rest) + byteSize before + 4 =
              offset source later := by
            rw [hplace, ← hbehind]
            rfl
          rw [find?_of_cut hcut]
          simp only [hstop]
          rfl
  · next hblock =>
      split
      · next hcomment =>
          rw [Bool.and_eq_true, Bool.not_eq_true'] at hcomment
          obtain ⟨htriple, hmark⟩ := hcomment
          obtain ⟨inside, hfound⟩ := Option.isSome_iff_exists.mp hmark
          have hmarked := eq_append_of_after? hfound
          rw [List.singleton_append] at hmarked
          rw [readTag_comment hblock htriple hmarked, hmarked]
          rw [hmarked] at hinside
          rw [offset_cons hinside rfl]
          exact lexComment_eq ((List.suffix_cons '!' inside).trans hinside)
      · next hcomment =>
          have hplain : ∀ inside, (skip '\x7b' rest).1 = false →
              (skip '~' (skip '\x7b' rest).2).2 ≠ '!' :: inside := by
            intro inside htriple hmarked
            rw [htriple, hmarked] at hcomment
            exact hcomment rfl
          rw [readTag_inside hblock hplain]
          exact lexInside_eq hinside

end ByOffset
end Template
end TemplateModules
