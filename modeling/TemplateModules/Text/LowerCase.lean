/-!
# Letters in lower case
-/

namespace TemplateModules
namespace Text

/-- An ASCII letter in lower case; other characters as they are. -/
def lowerChar (c : Char) : Char :=
  if 'A' ≤ c ∧ c ≤ 'Z' then Char.ofNat (c.toNat + 32) else c

/-- A text with its ASCII letters in lower case. -/
def lower (cs : List Char) : List Char :=
  cs.map lowerChar

end Text
end TemplateModules
