/-!
# Numerals

A word is a number if it has a sign or none, digits, perhaps a point with more digits, and perhaps
an exponent.  A numeral is such a word; it is kept as it is written.
-/

namespace TemplateModules
namespace Template

/-- Whether a character is a decimal digit. -/
def isDigit (c : Char) : Bool :=
  '0' ≤ c && c ≤ '9'

/-- What follows a character at the front of a text, or the whole text. -/
def dropLeading (mark : Char) : List Char → List Char
  | [] => []
  | c :: cs => if c = mark then cs else c :: cs

/-- Whether a text is the exponent of a number or is empty. -/
def isExponent : List Char → Bool
  | [] => true
  | c :: cs =>
      let digits :=
        match cs with
        | '+' :: ds => ds
        | '-' :: ds => ds
        | ds => ds
      (c == 'e' || c == 'E') && !digits.isEmpty && digits.all isDigit

/--
Whether a word is a number: a sign or none, digits, perhaps a point and more digits, and perhaps
an exponent.
-/
def isNumber (word : List Char) : Bool :=
  let digits := dropLeading '-' word
  let rest := digits.dropWhile isDigit
  let rest :=
    match rest with
    | '.' :: fraction => fraction.dropWhile isDigit
    | rest => rest
  (digits.head?.any isDigit) && isExponent rest

/-- A word that is a number. -/
structure Numeral where
  /-- The number as it is written. -/
  text : String
  isNumber_text : isNumber text.toList = true
  deriving DecidableEq, Repr

instance : Coe Numeral String := ⟨Numeral.text⟩

end Template
end TemplateModules
