import TemplateModules.Proofs.Template.OffsetTags

/-!
# Sources without an answer

An escaped mustache is content up to the next braces, where the scan goes on.  Where a backslash
stands before those braces, the content up to them would end before it starts.  The scan has no
answer for the sources in which it comes to such a place, and for all others it has tokens or an
error.
-/

namespace TemplateModules
namespace Template

open Text

/-- A text ends with a backslash that does not follow another one. -/
def Escaped (front : List Char) : Prop :=
  ∃ lead, front = lead ++ ['\\'] ∧ lead.getLast? ≠ some '\\'

/-- The places, given by what stands before and after them, that a scan from left to right comes to
without an error. -/
inductive Reached (source : List Char) : List Char → List Char → Prop where
  | start : Reached source [] source
  /-- Behind a tag that can be read. -/
  | tag {front part before rest piece after : List Char} {tag : Tag}
      (hreached : Reached source front part)
      (hcut : cut openBraces part = some (before, rest))
      (hplain : ¬ Escaped (front ++ before))
      (htag : readTag (LineIndex.ofSource source) rest = .ok (tag, after))
      (hpiece : openBraces ++ rest = piece ++ after) :
      Reached source (front ++ before ++ piece) after
  /-- At the first braces behind an escaped mustache. -/
  | literal {front part before rest inner later : List Char}
      (hreached : Reached source front part)
      (hcut : cut openBraces part = some (before, rest))
      (hescaped : Escaped (front ++ before))
      (hlater : cut openBraces rest = some (inner, later))
      (hforward : (openBraces ++ inner).getLast? ≠ some '\\') :
      Reached source (front ++ before ++ (openBraces ++ inner)) (openBraces ++ later)

/-- The scan comes to an escaped mustache such that a backslash stands right before the next
braces. -/
def StepsBack (source : List Char) : Prop :=
  ∃ front part before rest inner later,
    Reached source front part ∧
    cut openBraces part = some (before, rest) ∧
    Escaped (front ++ before) ∧
    cut openBraces rest = some (inner, later) ∧
    (openBraces ++ inner).getLast? = some '\\'

/-! ## Backslashes at the end of a text -/

theorem getLast?_append_eq {front more : List Char} (h : more ≠ []) :
    (front ++ more).getLast? = more.getLast? := by
  rw [List.getLast?_append]
  cases hlast : more.getLast? with
  | none => exact absurd (List.getLast?_eq_none_iff.mp hlast) h
  | some c => rfl

theorem getLast?_append_ne
    {front more : List Char} {c : Char} (hfront : front.getLast? ≠ some c)
    (hmore : more.getLast? ≠ some c) :
    (front ++ more).getLast? ≠ some c := by
  cases more with
  | nil => rwa [List.append_nil]
  | cons d ds => rwa [getLast?_append_eq (List.cons_ne_nil d ds)]

theorem getLast?_openBraces_append (inner : List Char) :
    (openBraces ++ inner).getLast? = some '\\' ↔ inner.getLast? = some '\\' := by
  cases inner with
  | nil => decide
  | cons c cs => rw [getLast?_append_eq (List.cons_ne_nil c cs)]

/-- Two backslashes, one backslash or none end a text. -/
theorem backslash_cases (cs : List Char) :
    cs.getLast? ≠ some '\\' ∨ Escaped cs ∨ ∃ lead, cs = lead ++ ['\\', '\\'] := by
  by_cases hlast : cs.getLast? = some '\\'
  · obtain ⟨lead, rfl⟩ := List.getLast?_eq_some_iff.mp hlast
    by_cases hlead : lead.getLast? = some '\\'
    · obtain ⟨front, rfl⟩ := List.getLast?_eq_some_iff.mp hlead
      exact .inr (.inr ⟨front, by rw [List.append_assoc]; rfl⟩)
    · exact .inr (.inl ⟨lead, rfl, hlead⟩)
  · exact .inl hlast

theorem Escaped.getLast? {front : List Char} (h : Escaped front) :
    front.getLast? = some '\\' := by
  obtain ⟨lead, rfl, -⟩ := h
  exact List.getLast?_concat

theorem not_escaped_doubled (lead : List Char) : ¬ Escaped (lead ++ ['\\', '\\']) := by
  rintro ⟨front, hfront, hlast⟩
  have heq : lead ++ ['\\'] ++ ['\\'] = front ++ ['\\'] := by simpa using hfront
  rw [← List.append_cancel_right heq, List.getLast?_concat] at hlast
  exact hlast rfl

/-- Behind a text that does not end with a backslash, only the backslashes of the new text count. -/
theorem escaped_append_iff {front before : List Char} (hfront : front.getLast? ≠ some '\\') :
    Escaped (front ++ before) ↔ Escaped before := by
  constructor
  · intro h
    rcases List.eq_nil_or_concat before with rfl | ⟨inner, c, rfl⟩
    · rw [List.append_nil] at h
      exact absurd h.getLast? hfront
    · obtain ⟨lead, hlead, hlast⟩ := h
      rw [List.concat_eq_append, ← List.append_assoc] at hlead
      obtain ⟨rfl, hc⟩ := List.append_inj' hlead rfl
      refine ⟨inner, by rw [List.concat_eq_append, hc], ?_⟩
      intro hinner
      rw [getLast?_append_eq (by rintro rfl; cases hinner), hinner] at hlast
      exact hlast rfl
  · rintro ⟨inner, rfl, hinner⟩
    exact ⟨front ++ inner, by rw [List.append_assoc], getLast?_append_ne hfront hinner⟩

/-! ## Stretches of content -/

section Stretches

variable {part before rest lead : List Char}

theorem stretch_of_plain (hcut : cut openBraces part = some (before, rest))
    (h : before.getLast? ≠ some '\\') : stretch part = .upTo before rest := by
  rw [stretch, hcut]
  rcases List.eq_nil_or_concat before with rfl | ⟨inner, c, rfl⟩
  · rfl
  · have hc : c ≠ '\\' := by
      rintro rfl
      simp at h
    simp [hc]

theorem stretch_of_doubled (hcut : cut openBraces part = some (lead ++ ['\\', '\\'], rest)) :
    stretch part = .upTo (lead ++ ['\\']) rest := by
  rw [stretch, hcut]
  simp only [List.reverse_append, List.reverse_cons, List.reverse_nil, List.nil_append,
    List.cons_append]
  rw [List.dropLast_append_of_ne_nil (by simp)]
  rfl

theorem stretch_of_escaped (hcut : cut openBraces part = some (lead ++ ['\\'], rest))
    (h : lead.getLast? ≠ some '\\') :
    stretch part =
      match cut openBraces rest with
      | none => .last (lead ++ openBraces ++ rest)
      | some (inner, later) =>
          if inner.getLast? = some '\\' then .backwards
          else .upTo (lead ++ openBraces ++ inner) later := by
  rw [stretch, hcut]
  rcases List.eq_nil_or_concat lead with rfl | ⟨inner, c, rfl⟩
  · rfl
  · have hc : c ≠ '\\' := by
      rintro rfl
      simp at h
    cases hlater : cut openBraces rest with
    | none => simp [hc, hlater]
    | some found => simp [hc, hlater]

end Stretches

/-! ## Places that are reached -/

section Places

variable {source front part before rest text : List Char} {index : LineIndex}

theorem Reached.source_eq (h : Reached source front part) : source = front ++ part := by
  induction h with
  | start => rfl
  | tag hreached hcut hplain htag hpiece ih =>
      rw [ih, eq_append_of_cut hcut, List.append_assoc, hpiece]
      simp only [List.append_assoc]
  | literal hreached hcut hescaped hlater hforward ih =>
      rw [ih, eq_append_of_cut hcut, eq_append_of_cut hlater]
      simp only [List.append_assoc]

/-- No backslash stands right before a place that is reached. -/
theorem Reached.getLast? (h : Reached source front part) : front.getLast? ≠ some '\\' := by
  cases h with
  | start => decide
  | tag hreached hcut hplain htag hpiece =>
      obtain ⟨_, hpiece', ⟨inside, rfl⟩, -⟩ := readTag_isTagText htag
      obtain rfl := List.append_cancel_right (hpiece.symm.trans hpiece')
      rw [getLast?_append_eq (by simp [openBraces]), getLast?_append_eq (by simp [closeBraces])]
      decide
  | literal hreached hcut hescaped hlater hforward =>
      rwa [getLast?_append_eq (by simp [openBraces])]

theorem Reached.escaped_iff (h : Reached source front part) (before : List Char) :
    Escaped (front ++ before) ↔ Escaped before :=
  escaped_append_iff h.getLast?

theorem cut_openBraces (later : List Char) :
    cut openBraces (openBraces ++ later) = some ([], later) := by
  cases later <;> rfl

/-- The content in front of braces that are not escaped does not depend on what follows these. -/
theorem exists_stretch_of_not_escaped (h : ¬ Escaped before) :
    ∃ text, ∀ {part rest : List Char},
      cut openBraces part = some (before, rest) → stretch part = .upTo text rest := by
  obtain hplain | hescaped | ⟨lead, rfl⟩ := backslash_cases before
  · exact ⟨before, fun hcut => stretch_of_plain hcut hplain⟩
  · exact absurd hescaped h
  · exact ⟨lead ++ ['\\'], stretch_of_doubled⟩

/-- The braces that a stretch leads up to are reached, and they are not escaped. -/
theorem Reached.braces (h : Reached source front part) (hstretch : stretch part = .upTo text rest) :
    ∃ front' part' before,
      Reached source front' part' ∧ cut openBraces part' = some (before, rest) ∧
        ¬ Escaped (front' ++ before) := by
  cases hcut : cut openBraces part with
  | none => simp [stretch, hcut] at hstretch
  | some found =>
      obtain ⟨before, tail⟩ := found
      obtain hplain | ⟨lead, rfl, hlead⟩ | ⟨lead, rfl⟩ := backslash_cases before
      · obtain ⟨rfl, rfl⟩ := by simpa using (stretch_of_plain hcut hplain).symm.trans hstretch
        refine ⟨front, part, before, h, hcut, ?_⟩
        rw [h.escaped_iff]
        exact fun hescaped => hplain hescaped.getLast?
      · have hescaped : Escaped (front ++ (lead ++ ['\\'])) :=
          (h.escaped_iff _).mpr ⟨lead, rfl, hlead⟩
        have hliteral := (stretch_of_escaped hcut hlead).symm.trans hstretch
        split at hliteral
        · cases hliteral
        · next inner later hlater =>
            split at hliteral
            · cases hliteral
            · next hinner =>
                obtain ⟨-, rfl⟩ := by simpa using hliteral
                have hforward := mt (getLast?_openBraces_append inner).mp hinner
                have hreached := Reached.literal h hcut hescaped hlater hforward
                refine ⟨_, _, [], hreached, cut_openBraces _, ?_⟩
                rw [hreached.escaped_iff]
                exact fun hnil => nomatch hnil.getLast?
      · obtain ⟨-, rfl⟩ := by simpa using (stretch_of_doubled hcut).symm.trans hstretch
        refine ⟨front, part, _, h, hcut, ?_⟩
        rw [h.escaped_iff]
        exact not_escaped_doubled lead

/-- The place behind the tag that a stretch leads up to is reached. -/
theorem Reached.past_tag {after : List Char} {tag : Tag} (h : Reached source front part)
    (hstretch : stretch part = .upTo text rest)
    (htag : readTag (LineIndex.ofSource source) rest = .ok (tag, after)) :
    ∃ front', Reached source front' after := by
  obtain ⟨front', part', before, hreached, hcut, hplain⟩ := h.braces hstretch
  obtain ⟨piece, hpiece, -⟩ := readTag_isTagText htag
  exact ⟨_, hreached.tag hcut hplain htag hpiece⟩

/-- Where a stretch goes back, a backslash stands before the braces behind an escaped mustache. -/
theorem exists_of_stretch_backwards (hstretch : stretch part = .backwards) :
    ∃ before rest inner later,
      cut openBraces part = some (before, rest) ∧ Escaped before ∧
        cut openBraces rest = some (inner, later) ∧ inner.getLast? = some '\\' := by
  cases hcut : cut openBraces part with
  | none => simp [stretch, hcut] at hstretch
  | some found =>
      obtain ⟨before, rest⟩ := found
      obtain hplain | ⟨lead, rfl, hlead⟩ | ⟨lead, rfl⟩ := backslash_cases before
      · simp [stretch_of_plain hcut hplain] at hstretch
      · have hliteral := (stretch_of_escaped hcut hlead).symm.trans hstretch
        split at hliteral
        · cases hliteral
        · next inner later hlater =>
            split at hliteral
            · next hinner =>
                exact ⟨_, rest, inner, later, rfl, ⟨lead, rfl, hlead⟩, hlater, hinner⟩
            · cases hliteral
      · simp [stretch_of_doubled hcut] at hstretch

/-- A scan goes back if it does so behind the next tag. -/
theorem backwards_iff_of_upTo (hstretch : stretch part = .upTo text rest) :
    scanFrom index part = .error .backwards ↔
      ∃ tag after,
        readTag index rest = .ok (tag, after) ∧ scanFrom index after = .error .backwards := by
  rw [scanFrom]
  split
  · next h => simp [hstretch] at h
  · next h => simp [hstretch] at h
  · next found later h =>
      obtain ⟨rfl, rfl⟩ := by simpa using hstretch.symm.trans h
      split
      · next e htag => simp [htag]
      · next tag after htag =>
          simp only [htag, Except.ok.injEq, Prod.mk.injEq]
          split
          · next f hafter => simp [hafter]
          · next tokens hafter => simp [hafter]

/-- A scan that goes back from a place that is reached goes back from the start. -/
theorem Reached.backwards (h : Reached source front part)
    (hback : scanFrom (LineIndex.ofSource source) part = .error .backwards) :
    scanFrom (LineIndex.ofSource source) source = .error .backwards := by
  induction h with
  | start => exact hback
  | tag hreached hcut hplain htag hpiece ih =>
      rw [hreached.escaped_iff] at hplain
      obtain ⟨text, hstretch⟩ := exists_stretch_of_not_escaped hplain
      exact ih ((backwards_iff_of_upTo (hstretch hcut)).mpr ⟨_, _, htag, hback⟩)
  | literal hreached hcut hescaped hlater hforward ih =>
      rename_i inner later
      obtain ⟨lead, rfl, hlead⟩ := (hreached.escaped_iff _).mp hescaped
      have hstretch := stretch_of_escaped hcut hlead
      rw [hlater] at hstretch
      simp only [if_neg (mt (getLast?_openBraces_append inner).mpr hforward)] at hstretch
      have hbraces := stretch_of_plain (cut_openBraces later) (by decide)
      exact ih ((backwards_iff_of_upTo hstretch).mpr ((backwards_iff_of_upTo hbraces).mp hback))

/-- The place at which a scan goes back is reached. -/
theorem stepsBack_of_backwards (h : Reached source front part)
    (hback : scanFrom (LineIndex.ofSource source) part = .error .backwards) :
    StepsBack source := by
  fun_induction scanFrom (LineIndex.ofSource source) part generalizing front with
  | case1 part hstretch =>
      obtain ⟨before, rest, inner, later, hcut, hescaped, hlater, hinner⟩ :=
        exists_of_stretch_backwards hstretch
      exact ⟨front, part, before, rest, inner, later, h, hcut, (h.escaped_iff before).mpr hescaped,
        hlater, (getLast?_openBraces_append inner).mpr hinner⟩
  | case2 part text hstretch => cases hback
  | case3 part text rest hstretch e htag => cases hback
  | case4 part text rest hstretch tag after htag _ _ f hafter ih =>
      obtain ⟨front', hreached⟩ := h.past_tag hstretch htag
      obtain rfl := Except.error.inj hback
      exact ih hreached hafter
  | case5 => cases hback

end Places

/-- The scan goes back on exactly the sources that step back. -/
theorem scan_eq_backwards_iff (source : String) :
    scan source = .error .backwards ↔ StepsBack source.toList := by
  have hscan : scan source = .error .backwards ↔
      scanFrom (LineIndex.ofSource source.toList) source.toList = .error .backwards := by
    unfold scan
    split
    · next f hfound => simp [hfound]
    · next tokens hfound => simp [hfound]
  rw [hscan]
  constructor
  · exact stepsBack_of_backwards .start
  · rintro ⟨front, part, before, rest, inner, later, hreached, hcut, hescaped, hlater, hinner⟩
    obtain ⟨lead, rfl, hlead⟩ := (hreached.escaped_iff before).mp hescaped
    have hstretch := stretch_of_escaped hcut hlead
    simp only [hlater, if_pos ((getLast?_openBraces_append inner).mp hinner)] at hstretch
    apply hreached.backwards
    rw [scanFrom]
    split
    · rfl
    · next h => simp [hstretch] at h
    · next h => simp [hstretch] at h

theorem cut_backslash {x : List Char} (hx : ¬ openBraces <:+: x) (tail : List Char) :
    cut openBraces (x ++ '\\' :: (openBraces ++ tail)) = some (x ++ ['\\'], tail) := by
  induction x with
  | nil =>
      have htail := cut_openBraces tail
      rw [List.nil_append, cut, htail]
      rfl
  | cons c cs ih =>
      have hstart := isSome_after?_of_not_isInfix hx
      rw [← isSome_after?_append_backslash (c :: cs) (openBraces ++ tail)] at hstart
      rw [List.infix_cons_iff, not_or] at hx
      have hnone := Option.isNone_iff_eq_none.mp (Option.isSome_eq_false_iff.mp hstart)
      rw [List.cons_append] at hnone
      rw [List.cons_append, cut, hnone, ih hx.2]
      rfl

/-- Two escaped mustaches without a tag between them make a source step back. -/
theorem stepsBack_of_escapes {source front x y z : List Char}
    (hreached : Reached source front
      (x ++ '\\' :: (openBraces ++ (y ++ '\\' :: (openBraces ++ z)))))
    (hx : ¬ openBraces <:+: x) (hy : ¬ openBraces <:+: y)
    (hlast : (front ++ x).getLast? ≠ some '\\') :
    StepsBack source := by
  refine ⟨front, _, x ++ ['\\'], y ++ '\\' :: (openBraces ++ z), y ++ ['\\'], z, hreached,
    cut_backslash hx _,
    ⟨front ++ x, by rw [List.append_assoc], hlast⟩, cut_backslash hy z, ?_⟩
  rw [getLast?_openBraces_append, List.getLast?_concat]

end Template
end TemplateModules
