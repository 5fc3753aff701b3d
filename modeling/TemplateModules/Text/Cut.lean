/-!
# Cutting a text at a mark

`cut mark cs` finds the first place where `mark` stands in `cs`, and gives what stands before and
after it.  The scanner of templates is a sequence of such cuts.
-/

namespace TemplateModules
namespace Text

/-- What follows `lead` in a text that starts with it. -/
def after? : List Char → List Char → Option (List Char)
  | [], cs => some cs
  | _ :: _, [] => none
  | m :: ms, c :: cs => if m = c then after? ms cs else none

/-- A text is `lead` followed by what `after?` gives. -/
theorem eq_append_of_after?
    {lead cs rest : List Char}
    (h : after? lead cs = some rest) :
    cs = lead ++ rest := by
  induction lead generalizing cs with
  | nil => simpa [after?] using h
  | cons m ms ih =>
    cases cs with
    | nil => simp [after?] at h
    | cons c cs =>
      by_cases hmc : m = c
      · subst hmc
        simp only [after?, if_true] at h
        rw [List.cons_append, ← ih h]
      · simp [after?, hmc] at h

/-- Every text starts with `lead` if `lead` is put in front of it. -/
@[simp]
theorem after?_append (lead rest : List Char) :
    after? lead (lead ++ rest) = some rest := by
  induction lead with
  | nil => rfl
  | cons m ms ih => simp [after?, ih]

/-- The text before and after the first `mark`, if there is one. -/
def cut (mark : List Char) : List Char → Option (List Char × List Char)
  | [] => (after? mark []).map fun rest => ([], rest)
  | c :: cs =>
      match after? mark (c :: cs) with
      | some rest => some ([], rest)
      | none => (cut mark cs).map fun (before, rest) => (c :: before, rest)

/-- The two parts of a cut, with the mark between them, make up the text. -/
theorem eq_append_of_cut
    {mark cs before rest : List Char}
    (h : cut mark cs = some (before, rest)) :
    cs = before ++ mark ++ rest := by
  induction cs generalizing before with
  | nil =>
    simp only [cut, Option.map_eq_some_iff, Prod.mk.injEq] at h
    obtain ⟨r, hr, rfl, rfl⟩ := h
    simpa using eq_append_of_after? hr
  | cons c cs ih =>
    rw [cut] at h
    split at h
    · next r hr =>
      obtain ⟨rfl, rfl⟩ := Prod.mk.inj (Option.some.inj h)
      simpa using eq_append_of_after? hr
    · simp only [Option.map_eq_some_iff, Prod.mk.injEq, Prod.exists] at h
      obtain ⟨b, r, hb, rfl, rfl⟩ := h
      rw [ih hb]
      rfl

/-- What follows a mark that is not empty is shorter than the text. -/
theorem length_lt_of_cut
    {mark cs before rest : List Char}
    (h : cut mark cs = some (before, rest)) (hmark : mark ≠ []) :
    rest.length < cs.length := by
  have hpos := List.length_pos_iff.mpr hmark
  rw [eq_append_of_cut h]
  simp only [List.length_append]
  omega

end Text
end TemplateModules
