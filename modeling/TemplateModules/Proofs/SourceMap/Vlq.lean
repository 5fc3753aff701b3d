import Mathlib.Tactic.Common
import TemplateModules.Proofs.Text.Base64
import TemplateModules.SourceMap.Builder

/-!
# Reading base 64 VLQ

Integers below `2 ^ 30` are written without overflow, and are read back whatever follows them.
-/

namespace TemplateModules
namespace SourceMap

open Text

/-! ## Reading -/

/-- The number at the front of a text, and what follows it. -/
def unsigned? : List Char → Option (Nat × List Char)
  | [] => none
  | c :: cs =>
      match base64Value? c with
      | none => none
      | some digit =>
          if digit < 32 then some (digit, cs)
          else (unsigned? cs).map fun (n, rest) => (digit - 32 + 32 * n, rest)

/-- The integer whose sign is the lowest bit of a number. -/
def signed (n : Nat) : Int :=
  if n % 2 = 1 then -(n / 2 : Nat) else (n / 2 : Nat)

theorem length_lt_of_unsigned?
    {cs rest : List Char} {n : Nat} (h : unsigned? cs = some (n, rest)) :
    rest.length < cs.length := by
  induction cs generalizing n with
  | nil => simp [unsigned?] at h
  | cons c cs ih =>
      rw [unsigned?] at h
      split at h
      · simp at h
      · split at h
        · simp only [Option.some.injEq, Prod.mk.injEq] at h
          simp [h.2]
        · simp only [Option.map_eq_some_iff, Prod.mk.injEq, Prod.exists] at h
          obtain ⟨m, later, hlater, _, rfl⟩ := h
          exact Nat.lt_succ_of_lt (ih hlater)

/-- The integers at the front of a text, up to a comma, a semicolon or the end, and what follows
them. -/
def fields? : List Char → Option (List Int × List Char)
  | [] => some ([], [])
  | c :: cs =>
      if c = ',' ∨ c = ';' then some ([], c :: cs)
      else
        match h : unsigned? (c :: cs) with
        | none => none
        | some (n, rest) =>
            have := length_lt_of_unsigned? h
            (fields? rest).map fun (values, rest) => (signed n :: values, rest)
termination_by cs => cs.length
decreasing_by exact this

theorem length_le_of_fields?
    {cs rest : List Char} {values : List Int} (h : fields? cs = some (values, rest)) :
    rest.length ≤ cs.length := by
  fun_induction fields? cs generalizing values with
  | case1 => simp_all
  | case2 c cs hc => simp_all
  | case3 c cs hc hnone => simp at h
  | case4 c cs hc n later hlater hlt ih =>
      simp only [Option.map_eq_some_iff, Prod.mk.injEq, Prod.exists] at h
      obtain ⟨more, end', hmore, _, rfl⟩ := h
      have := ih hmore
      omega

theorem length_lt_of_fields?
    {c : Char} {cs rest : List Char} {values : List Int}
    (h : fields? (c :: cs) = some (values, rest)) (hc : ¬(c = ',' ∨ c = ';')) :
    rest.length < (c :: cs).length := by
  rw [fields?, if_neg hc] at h
  split at h
  · contradiction
  · next n later hlater =>
      have hlt := length_lt_of_unsigned? hlater
      simp only [Option.map_eq_some_iff, Prod.mk.injEq, Prod.exists] at h
      obtain ⟨more, end', hmore, _, rfl⟩ := h
      have hle := length_le_of_fields? hmore
      omega

/-! ## Writing -/

/-- The number whose lowest bit is the sign of an integer. -/
def zigzag (v : Int) : Nat :=
  if v < 0 then 2 * v.natAbs + 1 else 2 * v.natAbs

theorem signed_zigzag (v : Int) : signed (zigzag v) = v := by
  unfold signed zigzag
  split <;> split <;> omega

/-- The digits of an integer. -/
def signedDigits (v : Int) : List Char :=
  vlqDigits (zigzag v)

theorem shiftLeft_one (n : Nat) : Int32.ofNat n <<< (1 : Int32) = Int32.ofNat (2 * n) := by
  have hshift : (1 : Int32).toBitVec.smod 32 = 1#32 := by decide
  apply Int32.toBitVec.inj
  rw [Int32.toBitVec_shiftLeft, hshift]
  apply BitVec.eq_of_toNat_eq
  simp [BitVec.toNat_shiftLeft, Nat.shiftLeft_eq, Nat.mul_comm]

theorem or_one (n : Nat) : Int32.ofNat (2 * n) ||| 1 = Int32.ofNat (2 * n + 1) := by
  have hor : 2 * n % 2 ^ 32 ||| 1 = 2 * n % 2 ^ 32 + 1 := by
    rw [show 2 * n % 2 ^ 32 = 2 ^ 1 * (n % 2 ^ 31) by omega,
      ← Nat.two_pow_add_eq_or_of_lt (by decide)]
  apply Int32.toBitVec.inj
  rw [Int32.toBitVec_or]
  apply BitVec.eq_of_toNat_eq
  have hodd : (2 * n + 1) % 2 ^ 32 = 2 * n % 2 ^ 32 + 1 := by
    omega
  simpa [BitVec.toNat_or] using hor.trans hodd.symm

/-- Positions below this one, `2 ^ 30`, have differences that fit into 31 bits with their signs. -/
def positionLimit : Nat := 1073741824

/-- The shift takes place in 32 bits, of which a large integer sets the highest one. -/
theorem signShift_ofInt {v : Int} (hv : v.natAbs < 2147483648) :
    signShift (Int32.ofInt v) = Int32.ofNat (zigzag v) := by
  have hsign : Int32.ofInt v < 0 ↔ v < 0 := by
    rw [Int32.lt_iff_toInt_lt, Int32.toInt_ofInt_of_le (by omega) (by omega)]
    rfl
  by_cases hneg : v < 0
  · have habs : -Int32.ofInt v = Int32.ofNat v.natAbs := by
      rw [← Int32.ofInt_neg, ← Int32.ofInt_eq_ofNat]
      congr 1
      omega
    rw [signShift, if_pos (hsign.mpr hneg), habs, shiftLeft_one, or_one, zigzag, if_pos hneg]
  · have habs : Int32.ofInt v = Int32.ofNat v.natAbs := by
      rw [← Int32.ofInt_eq_ofNat]
      congr 1
      omega
    rw [signShift, if_neg (mt hsign.mp hneg), habs, shiftLeft_one, zigzag, if_neg hneg]

theorem vlq?_ofInt {v : Int} (hv : v.natAbs < positionLimit) :
    vlq? (Int32.ofInt v) = some (signedDigits v) := by
  unfold positionLimit at hv
  have hsmall : zigzag v < 2 ^ 31 := by
    unfold zigzag
    split <;> omega
  have htoInt : (Int32.ofNat (zigzag v)).toInt = zigzag v := Int32.toInt_ofNat_of_lt hsmall
  have hpos : ¬Int32.ofNat (zigzag v) < 0 := by
    rw [Int32.lt_iff_toInt_lt, htoInt]
    simp
  have hshift := signShift_ofInt (v := v) (by omega)
  simp only [vlq?, hshift, if_neg hpos, htoInt, Int.toNat_natCast, signedDigits]

theorem delta_eq (now before : Nat) : delta now before = Int32.ofInt (now - before) := by
  rw [delta, Int32.ofInt_sub, Int32.ofInt_eq_ofNat, Int32.ofInt_eq_ofNat]

/-! ## Reading what is written -/

theorem unsigned?_vlqDigits (n : Nat) (rest : List Char) :
    unsigned? (vlqDigits n ++ rest) = some (n, rest) := by
  fun_induction vlqDigits n with
  | case1 n hn => simp [unsigned?, base64Value?_base64Digit (n := n) (by omega), hn]
  | case2 n hn ih =>
      have hdigit := base64Value?_base64Digit (n := n % 32 + 32) (by omega)
      have hmore : ¬n % 32 + 32 < 32 := by
        omega
      have hvalue : n % 32 + 32 - 32 + 32 * (n / 32) = n := by
        omega
      simp only [List.cons_append, unsigned?, hdigit, if_neg hmore, ih, Option.map_some, hvalue]

/-- A number starts with a digit. -/
theorem exists_vlqDigits_eq (n : Nat) :
    ∃ digit < 64, ∃ digits, vlqDigits n = base64Digit digit :: digits := by
  by_cases hn : n < 32
  · exact ⟨n, by omega, [], by rw [vlqDigits, if_pos hn]⟩
  · exact ⟨n % 32 + 32, by omega, vlqDigits (n / 32), by rw [vlqDigits, if_neg hn]⟩

/-- The end of a segment: the end of the text, or a comma or a semicolon. -/
def AtSeparator (rest : List Char) : Prop :=
  ∀ c ∈ rest.head?, c = ',' ∨ c = ';'

theorem fields?_of_atSeparator {rest : List Char} (h : AtSeparator rest) :
    fields? rest = some ([], rest) := by
  cases rest with
  | nil => rw [fields?]
  | cons c cs => rw [fields?, if_pos (h c rfl)]

/-- Integers that are written are read back, up to a separator. -/
theorem fields?_signedDigits
    (values : List Int) {rest : List Char} (hrest : AtSeparator rest) :
    fields? (values.flatMap signedDigits ++ rest) = some (values, rest) := by
  induction values with
  | nil => exact fields?_of_atSeparator hrest
  | cons v values ih =>
      obtain ⟨digit, hdigit, digits, hdigits⟩ := exists_vlqDigits_eq (zigzag v)
      have hcomma : base64Digit digit ≠ ',' := base64Digit_ne hdigit (by decide)
      have hsemicolon : base64Digit digit ≠ ';' := base64Digit_ne hdigit (by decide)
      have hread := unsigned?_vlqDigits (zigzag v) (values.flatMap signedDigits ++ rest)
      rw [hdigits, List.cons_append] at hread
      rw [List.flatMap_cons, List.append_assoc, signedDigits, hdigits, List.cons_append, fields?,
        if_neg (by simp [hcomma, hsemicolon])]
      split
      · next hnone =>
          rw [hread] at hnone
          contradiction
      · next n later hsome =>
          rw [hread] at hsome
          obtain ⟨rfl, rfl⟩ := Prod.mk.inj (Option.some.inj hsome)
          rw [ih, Option.map_some, signed_zigzag]

end SourceMap
end TemplateModules
