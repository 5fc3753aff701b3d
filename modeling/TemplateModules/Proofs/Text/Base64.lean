import Mathlib.Tactic.Common
import TemplateModules.Text.Base64

/-!
# Reading base 64

The digits of base 64 are read back as the bytes that they were written for.
-/

namespace TemplateModules
namespace Text

/-- The value of a digit of base 64. -/
def base64Value? (c : Char) : Option Nat :=
  if 'A' ≤ c ∧ c ≤ 'Z' then some (c.toNat - 0x41)
  else if 'a' ≤ c ∧ c ≤ 'z' then some (c.toNat - 0x61 + 26)
  else if '0' ≤ c ∧ c ≤ '9' then some (c.toNat - 0x30 + 52)
  else if c = '+' then some 62
  else if c = '/' then some 63
  else none

/-- The number that digits of base 64 stand for. -/
def base64Number? (digits : List Char) : Option Nat :=
  digits.foldlM (fun n c => (base64Value? c).map (n * 64 + ·)) 0

/-- The bytes that a text in base 64 stands for.  A group that is filled up has no other bits. -/
def unbase64? : List Char → Option (List UInt8)
  | [] => some []
  | [a, b, '=', '='] => do
      let n ← base64Number? [a, b]
      if n % 16 = 0 then some [UInt8.ofNat (n / 16)] else none
  | [a, b, c, '='] => do
      let n ← base64Number? [a, b, c]
      if n % 4 = 0 then some [UInt8.ofNat (n / 1024), UInt8.ofNat (n / 4 % 256)] else none
  | a :: b :: c :: d :: rest => do
      let n ← base64Number? [a, b, c, d]
      let bytes ← unbase64? rest
      return UInt8.ofNat (n / 65536) :: UInt8.ofNat (n / 256 % 256) ::
        UInt8.ofNat (n % 256) :: bytes
  | _ => none

/-- The text whose UTF-8 encoding is written in base 64. -/
def unbase64Text? (s : String) : Option String :=
  (unbase64? s.toList).bind fun bytes => String.fromUTF8? bytes.toByteArray

theorem base64Value?_base64Digit {n : Nat} (hn : n < 64) :
    base64Value? (base64Digit n) = some n := by
  have hall : ∀ m < 64, base64Value? (base64Digit m) = some m := by decide +kernel
  exact hall n hn

/-- No character outside the alphabet is a digit. -/
theorem base64Digit_ne {n : Nat} {c : Char} (hn : n < 64) (hc : base64Value? c = none) :
    base64Digit n ≠ c := by
  intro h
  rw [← h, base64Value?_base64Digit hn] at hc
  cases hc

theorem base64Number?_nil : base64Number? [] = some 0 := rfl

/-- One more digit is one more place of the number. -/
theorem base64Number?_concat
    {digits : List Char} {n d : Nat} (h : base64Number? digits = some n) (hd : d < 64) :
    base64Number? (digits ++ [base64Digit d]) = some (n * 64 + d) := by
  rw [base64Number?] at h ⊢
  rw [List.foldlM_append, h]
  simp [base64Value?_base64Digit hd]

theorem base64Number?_two {n : Nat} (hn : n < 64 * 64) :
    base64Number? [base64Digit (n / 64), base64Digit (n % 64)] = some n := by
  have hfirst := base64Number?_concat base64Number?_nil (d := n / 64) (by omega)
  have hsecond := base64Number?_concat hfirst (d := n % 64) (by omega)
  rw [show (0 * 64 + n / 64) * 64 + n % 64 = n by omega] at hsecond
  exact hsecond

theorem base64Number?_three {n : Nat} (hn : n < 64 * 64 * 64) :
    base64Number? [base64Digit (n / 4096), base64Digit (n / 64 % 64), base64Digit (n % 64)] =
      some n := by
  have htwo := base64Number?_two (n := n / 64) (by omega)
  have hthird := base64Number?_concat htwo (d := n % 64) (by omega)
  rw [show n / 64 * 64 + n % 64 = n by omega, show n / 64 / 64 = n / 4096 by omega] at hthird
  exact hthird

theorem base64Number?_four {n : Nat} (hn : n < 64 * 64 * 64 * 64) :
    base64Number? [base64Digit (n / 262144), base64Digit (n / 4096 % 64),
      base64Digit (n / 64 % 64), base64Digit (n % 64)] = some n := by
  have hthree := base64Number?_three (n := n / 64) (by omega)
  have hfourth := base64Number?_concat hthree (d := n % 64) (by omega)
  rw [show n / 64 * 64 + n % 64 = n by omega, show n / 64 / 4096 = n / 262144 by omega,
    show n / 64 / 64 % 64 = n / 4096 % 64 by omega] at hfourth
  exact hfourth

theorem ofNat_of_eq {a : UInt8} {n : Nat} (h : n = a.toNat) : UInt8.ofNat n = a := by
  rw [h, UInt8.ofNat_toNat]

/-- Reading undoes writing. -/
theorem unbase64?_base64 (bytes : List UInt8) : unbase64? (base64 bytes) = some bytes := by
  have hequals : base64Value? '=' = none := by decide
  fun_induction base64 bytes with
  | case1 => rfl
  | case2 a n =>
      have ha := a.toNat_lt
      simp only [unbase64?, base64Number?_two (n := n) (by omega), Option.bind_eq_bind,
        Option.bind_some]
      rw [if_pos (by omega), ofNat_of_eq (a := a) (by omega)]
  | case3 a b n =>
      have ha := a.toNat_lt
      have hb := b.toNat_lt
      have hlast : base64Digit (n % 64) ≠ '=' := base64Digit_ne (by omega) hequals
      rw [unbase64?.eq_3 _ _ _ hlast, base64Number?_three (n := n) (by omega)]
      simp only [Option.bind_eq_bind, Option.bind_some]
      rw [if_pos (by omega), ofNat_of_eq (a := a) (by omega), ofNat_of_eq (a := b) (by omega)]
  | case4 a b c rest n ih =>
      have ha := a.toNat_lt
      have hb := b.toNat_lt
      have hc := c.toNat_lt
      have hlast : base64Digit (n % 64) ≠ '=' := base64Digit_ne (by omega) hequals
      rw [unbase64?.eq_4 _ _ _ _ _ (fun _ h => absurd h hlast) (fun h => absurd h hlast),
        base64Number?_four (n := n) (by omega), ih]
      simp only [Option.bind_eq_bind, Option.bind_some, Option.pure_def]
      rw [ofNat_of_eq (a := a) (by omega), ofNat_of_eq (a := b) (by omega),
        ofNat_of_eq (a := c) (by omega)]

theorem toList_loop (bytes : ByteArray) (i : Nat) (read : List UInt8) :
    ByteArray.toList.loop bytes i read = read.reverse ++ bytes.data.toList.drop i := by
  fun_induction ByteArray.toList.loop bytes i read with
  | case1 i read hi ih =>
      have hlength : i < bytes.data.toList.length := by
        simpa using hi
      have hget : bytes.get! i = bytes.data.toList[i] := by
        rw [Array.getElem_toList]
        exact getElem!_pos bytes.data i hi
      rw [ih, List.drop_eq_getElem_cons hlength, hget, List.reverse_cons, List.append_assoc]
      rfl
  | case2 i read hi =>
      rw [List.drop_eq_nil_of_le (by simpa using Nat.le_of_not_lt hi), List.append_nil]

theorem toByteArray_toList (bytes : ByteArray) : bytes.toList.toByteArray = bytes := by
  have hdata : bytes.toList = bytes.data.toList := by
    rw [ByteArray.toList, toList_loop]
    rfl
  apply ByteArray.ext
  rw [hdata, List.data_toByteArray]

theorem unbase64Text?_base64Text (s : String) : unbase64Text? (base64Text s) = some s := by
  rw [unbase64Text?, base64Text, String.toList_ofList, unbase64?_base64, Option.bind_some,
    toByteArray_toList]
  exact dif_pos s.isValidUTF8

/-- Base 64 has no characters but its digits and equals signs. -/
theorem notMem_base64
    {c : Char} (bytes : List UInt8) (hc : base64Value? c = none) (hequals : c ≠ '=') :
    c ∉ base64 bytes := by
  have hdigit : ∀ n, n < 64 → c ≠ base64Digit n := fun n hn => (base64Digit_ne hn hc).symm
  fun_induction base64 bytes with
  | case1 => exact List.not_mem_nil
  | case2 a n =>
      have ha := a.toNat_lt
      simp [hequals, hdigit (n / 64) (by omega), hdigit (n % 64) (by omega)]
  | case3 a b n =>
      have ha := a.toNat_lt
      have hb := b.toNat_lt
      simp [hequals, hdigit (n / 4096) (by omega), hdigit (n / 64 % 64) (by omega),
        hdigit (n % 64) (by omega)]
  | case4 a b c rest n ih =>
      have ha := a.toNat_lt
      have hb := b.toNat_lt
      have hc := c.toNat_lt
      simp [ih, hdigit (n / 262144) (by omega), hdigit (n / 4096 % 64) (by omega),
        hdigit (n / 64 % 64) (by omega), hdigit (n % 64) (by omega)]

end Text
end TemplateModules
