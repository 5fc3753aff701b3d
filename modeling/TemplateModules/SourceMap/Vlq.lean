import TemplateModules.Text.Base64

/-!
# Base64 VLQ

Source maps write integers of 32 bits with a variable number of digits.  The sign becomes the
lowest bit, and the bits are then given five at a time, from the lowest up; a sixth bit says that
more follow.  The shifted integer is itself one of 32 bits.  If it is negative, shifting it right
never makes it zero, and it has no written form.
-/

namespace TemplateModules
namespace SourceMap

open Text

/-- An integer with its sign moved to the lowest bit. -/
def signShift (value : Int32) : Int32 :=
  if value < 0 then ((-value) <<< 1) ||| 1 else value <<< 1

/-- The digits of a natural number, five bits each. -/
def vlqDigits (n : Nat) : List Char :=
  if n < 32 then [base64Digit n] else base64Digit (n % 32 + 32) :: vlqDigits (n / 32)

/-- The written form of an integer, if it has one. -/
def vlq? (value : Int32) : Option (List Char) :=
  let shifted := signShift value
  if shifted < 0 then none else some (vlqDigits shifted.toInt.toNat)

end SourceMap
end TemplateModules
