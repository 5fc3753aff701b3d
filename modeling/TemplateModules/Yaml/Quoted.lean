import TemplateModules.Yaml.Cursor

/-!
# Scalars that are quoted or plain

Lines of a scalar are joined: one end of a line becomes a space, and of several the first is
dropped.  Spaces around the ends of lines do not count.
-/

namespace TemplateModules
namespace Yaml

/-- What a run of spaces and ends of lines stands for inside a scalar. -/
def foldGap (run : List Char) : List Char :=
  match run.filter isBreak with
  | [] => run
  | '\n' :: [] => [' ']
  | '\n' :: breaks => breaks
  | breaks => breaks

/-- The characters of a text before its first end of a line. -/
def firstLine (cs : List Char) : List Char :=
  cs.takeWhile fun c => !isBreak c

/-- The lines of a text after the first one. -/
def laterLines : List Char → List (List Char)
  | [] => []
  | c :: cs => if isBreak c then firstLine cs :: laterLines cs else laterLines cs

/-- The column that a run of spaces ends in, if it has an end of a line. -/
def columnAfter? (run : List Char) : Option Nat :=
  (laterLines run).getLast?.map List.length

/-- Whether a run of spaces and ends of lines leaves a mark of documents at the start of a line. -/
def reachesMark (run rest : List Char) : Bool :=
  columnAfter? run = some 0 && startsWithMark rest

/-- The value of a hexadecimal digit. -/
def hexValue? (c : Char) : Option Nat :=
  if '0' ≤ c ∧ c ≤ '9' then some (c.toNat - 0x30)
  else if 'A' ≤ c ∧ c ≤ 'F' then some (c.toNat - 0x37)
  else if 'a' ≤ c ∧ c ≤ 'f' then some (c.toNat - 0x57)
  else none

/-- The value of hexadecimal digits after a value. -/
def hexNumber? : Nat → List Char → Option Nat
  | n, [] => some n
  | n, c :: cs => (hexValue? c).bind fun d => hexNumber? (16 * n + d) cs

/-- The character of a code point that is none of a surrogate. -/
def scalarValue? (n : Nat) : Option Char :=
  if n.isValidChar then some (Char.ofNat n) else none

/-- The character of a code point with a given number of hexadecimal digits. -/
def readCodePoint (digits : Nat) (cs : List Char) : Option (Char × List Char) :=
  if cs.length < digits then none
  else ((hexNumber? 0 (cs.take digits)).bind scalarValue?).map fun c => (c, cs.drop digits)

/-- The character that a letter after a backslash stands for. -/
def escapedChar? : Char → Option Char
  | '0' => some '\x00'
  | 'a' => some '\x07'
  | 'b' => some '\x08'
  | 't' => some '\t'
  | '\t' => some '\t'
  | 'n' => some '\n'
  | 'v' => some '\x0b'
  | 'f' => some '\x0c'
  | 'r' => some '\r'
  | 'e' => some '\x1b'
  | ' ' => some ' '
  | '"' => some '"'
  | '/' => some '/'
  | '\\' => some '\\'
  | 'N' => some '\u0085'
  | '_' => some '\u00a0'
  | 'L' => some '\u2028'
  | 'P' => some '\u2029'
  | _ => none

/-- Reads what follows a backslash. -/
def readEscape : List Char → Option (Char × List Char)
  | 'x' :: cs => readCodePoint 2 cs
  | 'u' :: cs => readCodePoint 4 cs
  | 'U' :: cs => readCodePoint 8 cs
  | c :: cs => (escapedChar? c).map fun c => (c, cs)
  | [] => none

/--
Reads a scalar up to its closing single quote.  A quote is written twice.  The first argument
bounds the number of characters.
-/
def readSingleQuoted : Nat → List Char → Option (List Char × List Char)
  | 0, _ => none
  | _ + 1, [] => none
  | fuel + 1, '\'' :: '\'' :: cs =>
      (readSingleQuoted fuel cs).map fun (text, rest) => ('\'' :: text, rest)
  | _ + 1, '\'' :: cs => some ([], cs)
  | fuel + 1, c :: cs =>
      if isGap c then
        let run := (c :: cs).takeWhile isGap
        let after := (c :: cs).dropWhile isGap
        if reachesMark run after then none
        else (readSingleQuoted fuel after).map fun (text, rest) => (foldGap run ++ text, rest)
      else (readSingleQuoted fuel cs).map fun (text, rest) => (c :: text, rest)

/--
Reads a scalar up to its closing double quote.  A backslash at the end of a line joins it with the
next one.  The first argument bounds the number of characters.
-/
def readDoubleQuoted : Nat → List Char → Option (List Char × List Char)
  | 0, _ => none
  | _ + 1, [] => none
  | _ + 1, '"' :: cs => some ([], cs)
  | fuel + 1, '\\' :: cs =>
      if (cs.head?.map isBreak).getD false then
        let run := cs.takeWhile isGap
        let after := cs.dropWhile isGap
        if reachesMark run after then none
        else
          (readDoubleQuoted fuel after).map fun (text, rest) =>
            ((run.filter isBreak).tail ++ text, rest)
      else
        match readEscape cs with
        | none => none
        | some (c, cs) => (readDoubleQuoted fuel cs).map fun (text, rest) => (c :: text, rest)
  | fuel + 1, c :: cs =>
      if isGap c then
        let run := (c :: cs).takeWhile isGap
        let after := (c :: cs).dropWhile isGap
        if reachesMark run after then none
        else (readDoubleQuoted fuel after).map fun (text, rest) => (foldGap run ++ text, rest)
      else (readDoubleQuoted fuel cs).map fun (text, rest) => (c :: text, rest)

end Yaml
end TemplateModules
