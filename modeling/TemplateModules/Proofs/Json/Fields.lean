import Mathlib.Tactic.Common
import TemplateModules.Json.Value

/-!
# Fields that are given values

A key that has a value keeps its place when it is given another one, and a new key comes to the end.
-/

namespace TemplateModules
namespace Fields

variable {α : Type} {fields : Fields α} {field : String × α} {key other : String} {value later : α}

theorem get?_insert (fields : Fields α) (key other : String) (value : α) :
    (insert fields key value).get? other =
      if key = other then some value else fields.get? other := by
  induction fields with
  | nil => rfl
  | cons field fields ih =>
      obtain ⟨k, v⟩ := field
      by_cases hk : k = key
      · subst hk
        by_cases hother : k = other
        · simp [insert, get?, hother]
        · simp [insert, get?, hother]
      · rw [insert, if_neg hk, get?, get?, ih]
        by_cases hother : k = other
        · rw [if_pos hother, if_pos hother, if_neg (hother ▸ Ne.symm hk)]
        · rw [if_neg hother, if_neg hother]

theorem mem_of_mem_insert (h : field ∈ insert fields key value) :
    field = (key, value) ∨ field ∈ fields := by
  induction fields with
  | nil => exact .inl (List.mem_singleton.mp h)
  | cons first fields ih =>
      obtain ⟨k, v⟩ := first
      rw [insert] at h
      split at h
      · next hk =>
          rcases List.mem_cons.mp h with rfl | h
          · exact .inl (by rw [hk])
          · exact .inr (List.mem_cons_of_mem _ h)
      · rcases List.mem_cons.mp h with rfl | h
        · exact .inr List.mem_cons_self
        · exact (ih h).imp_right (List.mem_cons_of_mem _)

end Fields
end TemplateModules
