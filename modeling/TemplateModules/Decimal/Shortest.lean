import TemplateModules.Decimal.Binary64

/-!
# Shortest decimals

Every number of the binary format stands for an interval of reals, those that are rounded to it.
Its shortest decimal is the multiple of the largest power of ten that lies in the interval, and
the one nearest to the number if several do.
-/

namespace TemplateModules
namespace Decimal

/-- An interval of reals, with bounds that belong to it or not. -/
structure Interval where
  low : Nat
  high : Nat
  closed : Bool
  deriving Repr

namespace Interval

/-- Whether a value lies in an interval. -/
def contains (i : Interval) (value : Nat) : Bool :=
  if i.closed then i.low ≤ value && value ≤ i.high else i.low < value && value < i.high

end Interval

/-- The smallest unit of a number, on a grid so fine that all bounds and decimals lie on it. -/
def finest : Nat := 4 * Nat.pow 10 324

/-- The magnitude of a number, on the same grid. -/
def gridValue (x : Binary64) : Nat :=
  x.units * finest

/-- The values that are rounded to a number, on the same grid. -/
def roundingInterval (x : Binary64) : Interval :=
  let half := Nat.pow 2 x.scale * (finest / 2)
  let below := if x.mantissa = Nat.pow 2 52 && 0 < x.scale then half / 2 else half
  { low := gridValue x - below, high := gridValue x + half, closed := x.mantissa % 2 == 0 }

/--
The nearest multiple of `step` to `value` among its two neighbours that lie in an interval, as a
count of steps.
-/
def nearestMultiple? (i : Interval) (value step : Nat) : Option Nat :=
  let below := value / step
  let above := below + 1
  match i.contains (below * step), i.contains (above * step) with
  | true, true =>
      let down := value - below * step
      let up := above * step - value
      some (if down < up || (down = up && below % 2 = 0) then below else above)
  | true, false => some below
  | false, true => some above
  | false, false => none

/--
The decimal `digits * 10 ^ exponent` of the coarsest grid with a value in the interval.  The grids
are those of `10 ^ (-324)` and its multiples by `10 ^ n`.
-/
def coarsest (i : Interval) (value unit : Nat) : Nat → Nat × Nat
  | 0 => (Binary64.roundDiv value unit, 0)
  | n + 1 =>
      match nearestMultiple? i value (unit * Nat.pow 10 (n + 1)) with
      | some digits => (digits, n + 1)
      | none => coarsest i value unit n

/-- The shortest decimal `digits * 10 ^ exponent` of a magnitude that is not zero. -/
def shortest (x : Binary64) : Nat × Int :=
  let (digits, n) :=
    coarsest (roundingInterval x) (gridValue x) (4 * Nat.pow 2 Binary64.bias) 640
  (digits, (n : Int) - 324)

/-- The longest run of digits and zeros in front of the point. -/
def maxIntegerDigits : Int := 16

/-- The most zeros between the point and the first digit. -/
def maxLeadingZeros : Int := 4

/-- The power of ten of the scientific form, with its sign. -/
def powerText (power : Int) : List Char :=
  'e' :: (if 0 ≤ power then ['+'] else []) ++ (toString power).toList

/-- Digits with the exponent of the last one, in positional or in scientific form. -/
def layout (digits : List Char) (exponent : Int) : List Char :=
  let point := (digits.length : Int) + exponent
  if 0 ≤ exponent ∧ point ≤ maxIntegerDigits then
    digits ++ List.replicate exponent.toNat '0' ++ ['.', '0']
  else if 0 < point ∧ point ≤ maxIntegerDigits then
    digits.take point.toNat ++ '.' :: digits.drop point.toNat
  else if -maxLeadingZeros ≤ point ∧ point ≤ 0 then
    '0' :: '.' :: List.replicate (-point).toNat '0' ++ digits
  else
    match digits with
    | [d] => d :: powerText (point - 1)
    | d :: ds => d :: '.' :: ds ++ powerText (point - 1)
    | [] => []

/-- The text of a number: the shortest decimal that reads back as the number. -/
def text (x : Binary64) : String :=
  let sign := if x.negative then ['-'] else []
  if x.isZero then String.ofList (sign ++ ['0', '.', '0'])
  else
    let (digits, exponent) := shortest x
    String.ofList (sign ++ layout (toString digits).toList exponent)

end Decimal
end TemplateModules
