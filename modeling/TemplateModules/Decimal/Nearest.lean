import TemplateModules.Decimal.Binary64

/-!
# Decimals read as binary numbers

A decimal is digits with a point and an exponent, each of which may be missing.  It stands for the
binary number nearest to it.
-/

namespace TemplateModules
namespace Decimal

/-- The number that decimal digits stand for. -/
def digitsValue (digits : List Char) : Nat :=
  digits.foldl (fun n c => 10 * n + (c.toNat - 0x30)) 0

/-- Decimals from this power of ten on are beyond the largest number. -/
def highestPower : Int := 310

/-- Decimals up to this power of ten are rounded to zero. -/
def lowestPower : Int := -330

/-- The number nearest to `digits * 10 ^ exponent`, if it is not beyond the largest one. -/
def nearest? (digits : List Char) (exponent : Int) : Option Binary64 :=
  let digits := digits.dropWhile (· = '0')
  let magnitude := (digits.length : Int) + exponent
  if digits.isEmpty ∨ magnitude ≤ lowestPower then some .zero
  else if highestPower ≤ magnitude then none
  else if 0 ≤ exponent then Binary64.ofRatio (digitsValue digits * Nat.pow 10 exponent.toNat) 1
  else Binary64.ofRatio (digitsValue digits) (Nat.pow 10 (-exponent).toNat)

/-- Whether a text is one digit or more. -/
def isDigits (cs : List Char) : Bool :=
  !cs.isEmpty && cs.all Char.isDigit

/-- A sign in front of a text, and what follows it. -/
def splitSign : List Char → Bool × List Char
  | '-' :: cs => (true, cs)
  | '+' :: cs => (false, cs)
  | cs => (false, cs)

/-- The exponent at the end of a decimal. -/
def readExponent? : List Char → Option Int
  | [] => some 0
  | c :: cs =>
      let (negative, digits) := splitSign cs
      if (c = 'e' ∨ c = 'E') ∧ isDigits digits then
        some (if negative then -(digitsValue digits : Int) else digitsValue digits)
      else none

/-- The number that a decimal without a sign stands for. -/
def readUnsigned? (cs : List Char) : Option Binary64 :=
  let whole := cs.takeWhile Char.isDigit
  let (fraction, rest) :=
    match cs.dropWhile Char.isDigit with
    | '.' :: cs => (cs.takeWhile Char.isDigit, cs.dropWhile Char.isDigit)
    | cs => ([], cs)
  if whole.isEmpty && fraction.isEmpty then none
  else
    (readExponent? rest).bind fun exponent =>
      nearest? (whole ++ fraction) (exponent - fraction.length)

/-- The number that a decimal stands for. -/
def read? (cs : List Char) : Option Binary64 :=
  let (negative, cs) := splitSign cs
  (readUnsigned? cs).map (Binary64.withSign negative)

end Decimal
end TemplateModules
