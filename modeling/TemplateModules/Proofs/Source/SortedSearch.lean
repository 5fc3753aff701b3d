import Mathlib.Tactic.Common

/-!
# Searching sorted numbers

A search answers at which index a number stands or, if it is missing, at which one it belongs.  It
narrows the numbers down to one of them, and halts if it reads outside of the array.  In numbers
that rise from one that is not past the number sought, it does not halt and gives the only right
answer, and a step back from where a missing number belongs there is always a number.
-/

namespace TemplateModules

/-- An answer: a number stands at an index, or it is missing and belongs at one. -/
inductive Sought where
  | found (i : Nat)
  | missing (i : Nat)
  deriving DecidableEq, Repr

/-- The numbers up to an index are not past the number sought, and all later ones are. -/
structure SplitsAt (numbers : Array Nat) (wanted k : Nat) : Prop where
  lt_size : k < numbers.size
  le : ∀ i (hi : i < numbers.size), i ≤ k → numbers[i] ≤ wanted
  lt : ∀ i (hi : i < numbers.size), k < i → wanted < numbers[i]

namespace Sought

/-- A right answer.  Smaller numbers stand in front of the index where a missing number belongs, and
greater ones from there on. -/
inductive Right (numbers : Array Nat) (wanted : Nat) : Sought → Prop
  | found {k : Nat} (h : numbers[k]? = some wanted) : Right numbers wanted (.found k)
  | missing {k : Nat} (hk : k ≤ numbers.size)
      (hbelow : ∀ i (hi : i < numbers.size), i < k → numbers[i] < wanted)
      (habove : ∀ i (hi : i < numbers.size), k ≤ i → wanted < numbers[i]) :
      Right numbers wanted (.missing k)

/-- Narrows `size` numbers, the first of them at `base`, down to one.  A round reads the number in
the middle and, unless this is past the number sought, leaves out what stands in front of it. -/
def narrow (numbers : Array Nat) (wanted base size : Nat) : Option Nat :=
  if size ≤ 1 then some base
  else
    match numbers[base + size / 2]? with
    | none => none
    | some middle =>
        narrow numbers wanted (if wanted < middle then base else base + size / 2)
          (size - size / 2)
termination_by size

/-- Searches numbers that rise. -/
def search? (numbers : Array Nat) (wanted : Nat) : Option Sought :=
  if numbers.size = 0 then some (.missing 0)
  else do
    let k ← narrow numbers wanted 0 numbers.size
    let number ← numbers[k]?
    if number = wanted then return .found k
    else return .missing (if number < wanted then k + 1 else k)

/-- The index of the number found, or one step back from where a missing number belongs.  There is
no step back from the index in front of all numbers. -/
def stepBack? : Sought → Option Nat
  | .found k => some k
  | .missing 0 => none
  | .missing (k + 1) => some k

/-- The answer where numbers split at an index: the number there, or else the index behind it. -/
def answerAt (numbers : Array Nat) (wanted k : Nat) : Sought :=
  if numbers[k]? = some wanted then .found k else .missing (k + 1)

/-- A step back from the answer leads to the index at which the numbers split. -/
theorem stepBack?_answerAt (numbers : Array Nat) (wanted k : Nat) :
    (answerAt numbers wanted k).stepBack? = some k := by
  unfold answerAt
  split
  · rfl
  · rfl

end Sought

namespace SplitsAt

open Sought

variable {numbers : Array Nat} {wanted k : Nat}

/-- Numbers split behind a front part that is not past the number sought, if all others are. -/
theorem of_append {first : Nat} {front back : List Nat}
    (hle : ∀ n ∈ first :: front, n ≤ wanted) (hlt : ∀ n ∈ back, wanted < n) :
    SplitsAt ((first :: front) ++ back).toArray wanted front.length := by
  refine ⟨?_, fun i hi hfront => ?_, fun i hi hback => ?_⟩
  · rw [List.size_toArray, List.length_append, List.length_cons]
    omega
  · apply hle
    rw [List.getElem_toArray, List.getElem_append_left (Nat.lt_succ_of_le hfront)]
    exact List.getElem_mem _
  · apply hlt
    rw [List.getElem_toArray, List.getElem_append_right hback]
    exact List.getElem_mem _

theorem lt_iff (h : SplitsAt numbers wanted k) {i : Nat} (hi : i < numbers.size) :
    wanted < numbers[i] ↔ k < i := by
  constructor
  · intro hlt
    by_contra hle
    have := h.le i hi (Nat.le_of_not_lt hle)
    omega
  · exact h.lt i hi

/-- Narrowing keeps the index at which the numbers split, and never reads outside of them. -/
theorem narrow_eq (h : SplitsAt numbers wanted k) (base size : Nat)
    (hbase : base ≤ k) (hk : k < base + size) (hsize : base + size ≤ numbers.size) :
    narrow numbers wanted base size = some k := by
  fun_induction narrow numbers wanted base size with
  | case1 base size hone =>
      congr 1
      omega
  | case2 base size hmore hnone =>
      rw [Array.getElem?_eq_none_iff] at hnone
      omega
  | case3 base size hmore middle hmiddle ih =>
      obtain ⟨hin, rfl⟩ := Array.getElem?_eq_some_iff.mp hmiddle
      have hpast := h.lt_iff hin
      apply ih
      · split <;> omega
      · split <;> omega
      · split <;> omega

/-- The search stops at the index at which the numbers split. -/
theorem search?_eq (h : SplitsAt numbers wanted k) :
    search? numbers wanted = some (answerAt numbers wanted k) := by
  have hsize := h.lt_size
  have hle := h.le k hsize (Nat.le_refl _)
  have hnarrow := h.narrow_eq 0 numbers.size (Nat.zero_le _) (by omega) (by omega)
  have hget : numbers[k]? = some numbers[k] := Array.getElem?_eq_getElem hsize
  have hsome : ¬numbers.size = 0 := by omega
  by_cases heq : numbers[k] = wanted
  · simp [search?, answerAt, hsome, hnarrow, hget, heq]
  · have hlt : numbers[k] < wanted := by omega
    simp [search?, answerAt, hsome, hnarrow, hget, heq, hlt]

section Rising

variable (h : SplitsAt numbers wanted k) (hrise : numbers.toList.Pairwise (· < ·))

include h hrise

theorem lt_wanted {i : Nat} (hi : i < numbers.size) (hfront : i < k) :
    numbers[i] < wanted := by
  have hsize := h.lt_size
  have hlt : numbers[i] < numbers[k] :=
    List.pairwise_iff_getElem.mp hrise i k hi hsize hfront
  exact Nat.lt_of_lt_of_le hlt (h.le k hsize (Nat.le_refl _))

theorem right_answerAt : (answerAt numbers wanted k).Right numbers wanted := by
  have hsize := h.lt_size
  have hle := h.le k hsize (Nat.le_refl _)
  unfold answerAt
  split
  · next hfound => exact .found hfound
  · next hmissing =>
      rw [Array.getElem?_eq_getElem hsize, Option.some.injEq] at hmissing
      refine .missing hsize (fun i hi hlt => ?_) h.lt
      rcases Nat.lt_succ_iff_lt_or_eq.mp hlt with hfront | rfl
      · exact h.lt_wanted hrise hi hfront
      · omega

/-- Where numbers rise, the index at which they split decides the right answer. -/
theorem eq_answerAt_of_right {answer : Sought} (hright : answer.Right numbers wanted) :
    answer = answerAt numbers wanted k := by
  have hsize := h.lt_size
  have hle := h.le k hsize (Nat.le_refl _)
  cases hright with
  | @found i hfound =>
      obtain ⟨hi, heq⟩ := Array.getElem?_eq_some_iff.mp hfound
      have hpast := h.lt_iff hi
      have hfront : ¬i < k := by
        intro hlt
        have := h.lt_wanted hrise hi hlt
        omega
      obtain rfl : i = k := by omega
      rw [answerAt, if_pos hfound]
  | @missing i hbound hbelow habove =>
      have hback : k < i := by
        by_contra hlt
        have := habove k hsize (by omega)
        omega
      have hnext : ¬k + 1 < i := by
        intro hlt
        have hsmall := hbelow (k + 1) (by omega) hlt
        have hlarge := h.lt (k + 1) (by omega) (Nat.lt_succ_self k)
        omega
      obtain rfl : i = k + 1 := by omega
      have hmissing : numbers[k]? ≠ some wanted := by
        rw [Array.getElem?_eq_getElem hsize, Ne, Option.some.injEq]
        exact Nat.ne_of_lt (hbelow k hsize hback)
      rw [answerAt, if_neg hmissing]

/-- The search gives the only right answer. -/
theorem search?_eq_some_iff {answer : Sought} :
    search? numbers wanted = some answer ↔ answer.Right numbers wanted := by
  rw [h.search?_eq, Option.some.injEq]
  constructor
  · rintro rfl
    exact h.right_answerAt hrise
  · intro hright
    exact (h.eq_answerAt_of_right hrise hright).symm

end Rising

end SplitsAt

end TemplateModules
