import TemplateModules.Text.Printable

/-!
# Quoted text

The string literals of JSON, which are string literals of JavaScript as well.  Writing escapes
the quote, the backslash and the control characters below the space; reading accepts every escape
of JSON, and takes two escaped halves of a surrogate pair for one character.
-/

namespace TemplateModules
namespace Text

/-- A character as it stands between the quotes. -/
def quoteChar (c : Char) : List Char :=
  if c = '"' then ['\\', '"']
  else if c = '\\' then ['\\', '\\']
  else if c = '\n' then ['\\', 'n']
  else if c = '\r' then ['\\', 'r']
  else if c = '\t' then ['\\', 't']
  else if c = '\x08' then ['\\', 'b']
  else if c = '\x0c' then ['\\', 'f']
  else if c.toNat < 0x20 then
    ['\\', 'u', '0', '0', hexDigit (c.toNat / 16), hexDigit (c.toNat % 16)]
  else [c]

/-- A text in double quotes. -/
def quote (cs : List Char) : List Char :=
  '"' :: cs.flatMap quoteChar ++ ['"']

/-- A string in double quotes. -/
def quoted (s : String) : String :=
  String.ofList (quote s.toList)

/-- The value of a hexadecimal digit. -/
def hexValue? (c : Char) : Option Nat :=
  if '0' ≤ c ∧ c ≤ '9' then some (c.toNat - 0x30)
  else if 'a' ≤ c ∧ c ≤ 'f' then some (c.toNat - 0x57)
  else if 'A' ≤ c ∧ c ≤ 'F' then some (c.toNat - 0x37)
  else none

/-- The number that four hexadecimal digits stand for. -/
def hexUnit? (a b c d : Char) : Option Nat := do
  let a ← hexValue? a
  let b ← hexValue? b
  let c ← hexValue? c
  let d ← hexValue? d
  return ((a * 16 + b) * 16 + c) * 16 + d

/-- Whether a unit of 16 bits is the first half of a surrogate pair. -/
def isHighSurrogate (unit : Nat) : Bool :=
  0xd800 ≤ unit && unit < 0xdc00

/-- Whether a unit of 16 bits is the second half of a surrogate pair. -/
def isLowSurrogate (unit : Nat) : Bool :=
  0xdc00 ≤ unit && unit < 0xe000

/-- The character that an escape of one letter stands for. -/
def unescape? : Char → Option Char
  | '"' => some '"'
  | '\\' => some '\\'
  | '/' => some '/'
  | 'b' => some '\x08'
  | 'f' => some '\x0c'
  | 'n' => some '\n'
  | 'r' => some '\r'
  | 't' => some '\t'
  | _ => none

/-- A part of a quoted text: a character, or a unit of 16 bits given by its number. -/
inductive Unit16 where
  | char (c : Char)
  | unit (n : Nat)
  deriving DecidableEq, Repr

/--
Reads up to the closing quote, and gives what follows it.  A character that has to be escaped, an
unknown escape and the end of the text are errors.
-/
def unquoteUnits : List Char → Option (List Unit16 × List Char)
  | [] => none
  | '"' :: rest => some ([], rest)
  | '\\' :: 'u' :: a :: b :: c :: d :: rest =>
      match hexUnit? a b c d with
      | none => none
      | some n => (unquoteUnits rest).map fun (units, rest) => (.unit n :: units, rest)
  | '\\' :: e :: rest =>
      match unescape? e with
      | none => none
      | some c => (unquoteUnits rest).map fun (units, rest) => (.char c :: units, rest)
  | c :: rest =>
      if c = '\\' ∨ c.toNat < 0x20 then none
      else (unquoteUnits rest).map fun (units, rest) => (.char c :: units, rest)

/-- The characters of a text given by parts, unless half of a surrogate pair stands alone. -/
def joinUnits : List Unit16 → Option (List Char)
  | [] => some []
  | .char c :: units => (joinUnits units).map (c :: ·)
  | .unit high :: .unit low :: units =>
      if isHighSurrogate high then
        if isLowSurrogate low then
          (joinUnits units).map
            (Char.ofNat (0x10000 + (high - 0xd800) * 0x400 + (low - 0xdc00)) :: ·)
        else none
      else if isLowSurrogate high then none
      else (joinUnits (.unit low :: units)).map (Char.ofNat high :: ·)
  | .unit n :: units =>
      if isHighSurrogate n || isLowSurrogate n then none
      else (joinUnits units).map (Char.ofNat n :: ·)

/-- What a text after an opening quote stands for, and what follows its closing quote. -/
def unquote (cs : List Char) : Option (List Char × List Char) := do
  let (units, rest) ← unquoteUnits cs
  let text ← joinUnits units
  return (text, rest)

end Text
end TemplateModules
