import Mathlib.Logic.Function.Iterate
import TemplateModules.Proofs.SourceMap.Vlq

/-!
# The loop that writes digits

The digits of an integer are written in rounds.  A round writes the lowest five bits of the shifted
integer and shifts them out, and the loop ends after the first round that leaves zero.  Shifting
keeps the sign, so the loop ends exactly if the shifted integer is not negative; what it has written
by then is the written form of the integer.
-/

namespace TemplateModules
namespace SourceMap

open Text

/-- The integer at the front of a text, and what follows it. -/
def integer? (cs : List Char) : Option (Int × List Char) :=
  (unsigned? cs).map fun (n, rest) => (signed n, rest)

/-- Digits while they are written: what is left of the shifted integer, and the digits so far. -/
structure DigitLoop where
  left : Int32
  digits : List Char

namespace DigitLoop

/-- The loop before its first round. -/
def start (value : Int32) : DigitLoop :=
  { left := signShift value, digits := [] }

/-- One round.  The sixth bit of a digit says that more follow. -/
def round (l : DigitLoop) : DigitLoop :=
  let five := (l.left &&& 31).toInt.toNat
  let rest := l.left >>> 5
  { left := rest
    digits := l.digits ++ [base64Digit (if 0 < rest then five ||| 32 else five)] }

/-- The loop ends with some digits, after the first round that leaves zero. -/
inductive Ends : DigitLoop → List Char → Prop
  | last {l : DigitLoop} (h : l.round.left = 0) : Ends l l.round.digits
  | more {l : DigitLoop} {cs : List Char} (h : l.round.left ≠ 0) (rest : Ends l.round cs) :
      Ends l cs

/-! ## One round -/

section

variable {l : DigitLoop} {n : Nat} {cs : List Char}

/-- The shift of a round divides and keeps the sign. -/
theorem toInt_left_round (l : DigitLoop) : l.round.left.toInt = l.left.toInt / 32 := by
  have hshift : (5 : Int32).toBitVec.smod 32 = 5#32 := by decide
  have hbits : (l.left >>> 5).toBitVec = l.left.toBitVec.sshiftRight 5 := by
    rw [Int32.toBitVec_shiftRight, hshift]
    rfl
  rw [round, ← Int32.toInt_toBitVec, hbits, BitVec.toInt_sshiftRight, Int.shiftRight_eq_div_pow,
    Int32.toInt_toBitVec]
  rfl

theorem left_round_eq_zero_iff : l.round.left = 0 ↔ 0 ≤ l.left.toInt ∧ l.left.toInt < 32 := by
  rw [← Int32.toInt_inj, toInt_left_round, Int32.toInt_zero]
  omega

/-- The lowest five bits of an integer that is not negative. -/
theorem toInt_and_31 {x : Int32} (h : x.toInt = n) : (x &&& 31).toInt.toNat = n % 32 := by
  have hbits : x.toBitVec.toNat = n := by
    have hx : x.toBitVec.toInt = n := h
    rw [BitVec.toInt_eq_toNat_cond] at hx
    have := x.toBitVec.isLt
    split at hx <;> omega
  have hand : (x.toBitVec &&& (31 : Int32).toBitVec).toNat = n % 32 := by
    rw [BitVec.toNat_and, hbits]
    exact Nat.and_two_pow_sub_one_eq_mod n 5
  have hsmall : n % 32 < 32 := Nat.mod_lt n (by decide)
  rw [← Int32.toInt_toBitVec, Int32.toBitVec_and, BitVec.toInt_eq_toNat_cond, hand,
    if_pos (by omega), Int.toNat_natCast]

theorem or_32 (h : n < 32) : n ||| 32 = n + 32 := by
  have hadd := Nat.two_pow_add_eq_or_of_lt (i := 5) h 1
  rw [Nat.or_comm, Nat.add_comm]
  exact hadd.symm

/-- The digit of a round for an integer that is not negative. -/
theorem digits_round (h : l.left.toInt = n) :
    l.round.digits = l.digits ++ [base64Digit (if n < 32 then n else n % 32 + 32)] := by
  have hrest : (0 : Int32) < l.left >>> 5 ↔ ¬n < 32 := by
    have hround : (l.left >>> 5).toInt = l.left.toInt / 32 := toInt_left_round l
    rw [Int32.lt_iff_toInt_lt, Int32.toInt_zero, hround, h]
    omega
  have hfive : n % 32 < 32 := Nat.mod_lt n (by decide)
  rw [round, toInt_and_31 h, or_32 hfive]
  by_cases hn : n < 32
  · rw [if_neg (not_not.mpr hn ∘ hrest.mp), if_pos hn, Nat.mod_eq_of_lt hn]
  · rw [if_pos (hrest.mpr hn), if_neg hn]

/-! ## Runs that end -/

/-- The loop writes the digits of an integer that is not negative. -/
theorem ends_of_toInt_left_eq (h : l.left.toInt = n) : l.Ends (l.digits ++ vlqDigits n) := by
  induction n using Nat.strongRecOn generalizing l with
  | ind n ih =>
      rw [vlqDigits]
      split
      · next hn =>
          have hlast : l.round.left = 0 := by
            rw [left_round_eq_zero_iff, h]
            omega
          have hdigits := digits_round h
          rw [if_pos hn] at hdigits
          rw [← hdigits]
          exact .last hlast
      · next hn =>
          have hmore : l.round.left ≠ 0 := by
            rw [Ne, left_round_eq_zero_iff, h]
            omega
          have hleft : l.round.left.toInt = (n / 32 : Nat) := by
            rw [toInt_left_round, h]
            rfl
          have hrest := ih (n / 32) (by omega) hleft
          rw [digits_round h, if_neg hn, List.append_assoc, List.singleton_append] at hrest
          exact .more hmore hrest

/-- A negative integer stays negative, so that the loop that ends has none. -/
theorem Ends.nonneg (h : l.Ends cs) : 0 ≤ l.left.toInt := by
  induction h with
  | last hzero => exact (left_round_eq_zero_iff.mp hzero).1
  | more _ _ ih =>
      rw [toInt_left_round] at ih
      omega

theorem Ends.unique {cs' : List Char} (h : l.Ends cs) (h' : l.Ends cs') : cs = cs' := by
  induction h with
  | last hzero =>
      cases h' with
      | last => rfl
      | more hmore => exact absurd hzero hmore
  | more hmore _ ih =>
      cases h' with
      | last hzero => exact absurd hzero hmore
      | more _ hrest => exact ih hrest

theorem ends_iff :
    l.Ends cs ↔ 0 ≤ l.left.toInt ∧ cs = l.digits ++ vlqDigits l.left.toInt.toNat := by
  constructor
  · intro h
    have hleft := h.nonneg
    exact ⟨hleft, h.unique (ends_of_toInt_left_eq (Int.toNat_of_nonneg hleft).symm)⟩
  · rintro ⟨hleft, rfl⟩
    exact ends_of_toInt_left_eq (Int.toNat_of_nonneg hleft).symm

/-- An integer has a written form if the loop ends, and then it is what the loop has written. -/
theorem vlq?_eq_some_iff {v : Int32} : vlq? v = some cs ↔ (start v).Ends cs := by
  have hsign : signShift v < 0 ↔ ¬0 ≤ (signShift v).toInt := by
    rw [Int32.lt_iff_toInt_lt, Int32.toInt_zero, Int.not_le]
  rw [ends_iff, start, List.nil_append, vlq?]
  by_cases hneg : signShift v < 0
  · simp [hneg, hsign.mp hneg]
  · have hleft := not_not.mp (mt hsign.mpr hneg)
    simp [hneg, hleft, eq_comm]

/-! ## Runs without end -/

/-- Rounds leave a negative integer negative. -/
theorem toInt_left_iterate_neg (h : l.left.toInt < 0) (n : Nat) :
    (round^[n] l).left.toInt < 0 := by
  induction n with
  | zero => exact h
  | succ n ih =>
      rw [Function.iterate_succ_apply', toInt_left_round]
      omega

/-- Each round writes one digit. -/
theorem length_digits_iterate (l : DigitLoop) (n : Nat) :
    (round^[n] l).digits.length = l.digits.length + n := by
  induction n with
  | zero => rfl
  | succ n ih =>
      rw [Function.iterate_succ_apply', round, List.length_append, ih]
      rfl

end

/-! ## The sign of the shifted integer -/

/-- The shifted integer is negative if the integer is large. -/
theorem toInt_left_start_neg_iff {v : Int32} (hv : v ≠ Int32.minValue) :
    (start v).left.toInt < 0 ↔ positionLimit ≤ v.toInt.natAbs := by
  unfold positionLimit
  have hlow := v.le_toInt
  have hhigh := v.toInt_lt
  have hmin : v.toInt ≠ -2 ^ 31 := fun h => hv (Int32.toInt_inj.mp h)
  have hshift : signShift v = Int32.ofNat (zigzag v.toInt) := by
    have hsmall : v.toInt.natAbs < 2147483648 := by omega
    rw [← signShift_ofInt hsmall, Int32.ofInt_toInt]
  have hzigzag : zigzag v.toInt < 2 ^ 32 ∧
      (zigzag v.toInt < 2 ^ 31 ↔ v.toInt.natAbs < 2 ^ 30) := by
    unfold zigzag
    split <;> omega
  have hsize : Int32.size = 2 ^ 32 := rfl
  rw [start, hshift, Int32.toInt_ofNat', Int.bmod_def, hsize]
  split <;> omega

theorem exists_ends_iff {v : Int32} (hv : v ≠ Int32.minValue) :
    (∃ cs, (start v).Ends cs) ↔ v.toInt.natAbs < positionLimit := by
  have hsign := toInt_left_start_neg_iff hv
  constructor
  · rintro ⟨cs, h⟩
    have hleft := h.nonneg
    omega
  · intro h
    have hleft : 0 ≤ (start v).left.toInt := by omega
    exact ⟨_, ends_iff.mpr ⟨hleft, rfl⟩⟩

/-- The digits that the loop has written are read back as the integer, whatever follows them. -/
theorem Ends.integer?_append {v : Int32} {cs : List Char} (h : (start v).Ends cs)
    (hv : v ≠ Int32.minValue) (rest : List Char) :
    integer? (cs ++ rest) = some (v.toInt, rest) := by
  have hsmall : v.toInt.natAbs < positionLimit := (exists_ends_iff hv).mp ⟨cs, h⟩
  have hwritten := vlq?_eq_some_iff.mpr h
  rw [← Int32.ofInt_toInt v, vlq?_ofInt hsmall, Option.some.injEq] at hwritten
  have hread := unsigned?_vlqDigits (zigzag v.toInt) rest
  simp only [integer?, ← hwritten, signedDigits, hread, Option.map_some, signed_zigzag]

/--
For every integer but the least one, the loop ends exactly if its absolute value is below the limit
`2 ^ 30` of positions.  What it has written is then the written form of the integer, and the integer
is read back from it, whatever follows.  From the limit on the shifted integer is negative, and
after any number of rounds, which have written as many digits, the loop goes on.
-/
theorem digits_terminate (v : Int32) (hv : v ≠ Int32.minValue) :
    (∀ cs, vlq? v = some cs ↔ (start v).Ends cs) ∧
    ((∃ cs, (start v).Ends cs) ↔ v.toInt.natAbs < positionLimit) ∧
    (∀ cs, (start v).Ends cs → ∀ rest, integer? (cs ++ rest) = some (v.toInt, rest)) ∧
    (positionLimit ≤ v.toInt.natAbs →
      signShift v < 0 ∧
        ∀ n, (round^[n] (start v)).left ≠ 0 ∧ (round^[n] (start v)).digits.length = n) := by
  refine ⟨fun cs => vlq?_eq_some_iff, exists_ends_iff hv, fun cs h => h.integer?_append hv, ?_⟩
  intro hlarge
  have hneg := (toInt_left_start_neg_iff hv).mpr hlarge
  refine ⟨Int32.lt_iff_toInt_lt.mpr hneg, fun n => ⟨fun hzero => ?_, ?_⟩⟩
  · have hleft := toInt_left_iterate_neg hneg n
    rw [hzero] at hleft
    exact absurd hleft (by decide)
  · rw [length_digits_iterate]
    exact Nat.zero_add n

/-- The greatest integer for which the loop ends, and a negative one for which it does not. -/
theorem limit_terminates :
    (∃ cs, (start 1073741823).Ends cs) ∧
      ∀ n, (round^[n] (start (-1073741824))).left ≠ 0 := by
  obtain ⟨-, hends, -⟩ := digits_terminate 1073741823 (by decide)
  obtain ⟨-, -, -, hgoes⟩ := digits_terminate (-1073741824) (by decide)
  exact ⟨hends.mpr (by decide), fun n => ((hgoes (by decide)).2 n).1⟩

end DigitLoop
end SourceMap
end TemplateModules
