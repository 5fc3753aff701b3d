/-!
# Binary floating-point numbers of 64 bits

A finite number of the format is a sign and a magnitude `mantissa * 2 ^ scale`, counted in units
of `2 ^ (-1074)`, the smallest positive number of the format.  All arithmetic is exact on natural
numbers and is rounded once, to the nearest number of the format and to an even mantissa if two
are equally near.
-/

namespace TemplateModules
namespace Decimal

/-- A finite number of the binary format of 64 bits. -/
structure Binary64 where
  negative : Bool
  /-- Less than `2 ^ 53`. -/
  mantissa : Nat
  /-- The exponent above that of the smallest positive number. -/
  scale : Nat
  deriving DecidableEq, Repr, Inhabited

namespace Binary64

/-- The exponent, without its sign, of the smallest positive number. -/
def bias : Nat := 1074

/-- The largest scale of a finite number. -/
def maxScale : Nat := 2045

/-- The number zero. -/
def zero : Binary64 := { negative := false, mantissa := 0, scale := 0 }

/-- A quotient rounded to the nearest natural number, and to the even one of two. -/
def roundDiv (num den : Nat) : Nat :=
  let quotient := num / den
  let twice := 2 * (num % den)
  if twice < den then quotient
  else if den < twice then quotient + 1
  else if quotient % 2 = 0 then quotient else quotient + 1

/-- The number nearest to a quotient, if it is not beyond the largest one. -/
def ofRatio (num den : Nat) : Option Binary64 :=
  let units := num * Nat.pow 2 bias
  let scale := (units / den).log2 + 1 - 53
  let mantissa := roundDiv units (den * Nat.pow 2 scale)
  let (mantissa, scale) :=
    if mantissa = Nat.pow 2 53 then (Nat.pow 2 52, scale + 1) else (mantissa, scale)
  if scale ≤ maxScale then some { negative := false, mantissa, scale } else none

/-- The magnitude in the smallest units of the format. -/
def units (x : Binary64) : Nat :=
  x.mantissa * Nat.pow 2 x.scale

/-- Whether a number is zero. -/
def isZero (x : Binary64) : Bool :=
  x.mantissa == 0

/-- The number with a sign put before its magnitude. -/
def withSign (negative : Bool) (x : Binary64) : Binary64 :=
  { x with negative }

/-- The product of two magnitudes. -/
def mul (x y : Binary64) : Option Binary64 :=
  ofRatio (x.units * y.units) (Nat.pow 2 (2 * bias))

/-- The quotient of two magnitudes. -/
def div (x y : Binary64) : Option Binary64 :=
  ofRatio x.units y.units

/-- The number nearest to a power of ten. -/
def powerOfTen (n : Nat) : Option Binary64 :=
  ofRatio (Nat.pow 10 n) 1

end Binary64
end Decimal
end TemplateModules
