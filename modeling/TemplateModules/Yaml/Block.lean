import TemplateModules.Yaml.Quoted

/-!
# Block scalars

A block scalar is a number of indented lines.  In a literal one every end of a line is kept; in a
folded one lines are joined unless one of them starts with a space.  The header says what becomes
of the ends of lines after the last line, and may say how deep the lines are indented.
-/

namespace TemplateModules
namespace Yaml

/-- What becomes of the ends of lines after the last line. -/
inductive Chomping where
  | strip
  | clip
  | keep
  deriving DecidableEq, Repr

/-- The header of a block scalar. -/
structure BlockHeader where
  chomping : Chomping
  /-- How much deeper than their surroundings the lines are indented. -/
  increment : Option Nat
  deriving DecidableEq, Repr

/-- Reads a sign of the header. -/
def readChomping : List Char → Option (Chomping × List Char)
  | '+' :: cs => some (.keep, cs)
  | '-' :: cs => some (.strip, cs)
  | _ => none

/-- Reads a digit of the header if there is one.  A zero is refused. -/
def readIncrement : List Char → Option (Option Nat × List Char)
  | c :: cs =>
      if c = '0' then none
      else if c.isDigit then some (some (c.toNat - 0x30), cs)
      else some (none, c :: cs)
  | [] => some (none, [])

/-- Reads the sign and the digit of a header, in either order. -/
def readBlockHeader (cs : List Char) : Option (BlockHeader × List Char) :=
  match readChomping cs with
  | some (chomping, cs) =>
      (readIncrement cs).map fun (increment, cs) => ({ chomping, increment }, cs)
  | none =>
      (readIncrement cs).map fun (increment, cs) =>
        match increment, readChomping cs with
        | some n, some (chomping, cs) => ({ chomping, increment := some n }, cs)
        | _, _ => ({ chomping := .clip, increment }, cs)

/-- Drops spaces and a comment up to the end of the line, and drops that end. -/
def dropLineEnd (cs : List Char) : Option (List Char) :=
  let cs := cs.dropWhile isSpace
  let cs := if cs.head? = some '#' then cs.dropWhile fun c => !isBreak c else cs
  match cs with
  | [] => some []
  | c :: rest => if isBreak c then some rest else none

/-- The indentation in front of a line and the empty lines before it. -/
structure BlockGap where
  breaks : List Char
  column : Nat
  /-- The largest indentation of the line and of the empty lines. -/
  widest : Nat
  rest : List Char
  deriving Repr

/-- Reads empty lines and the indentation of the next line, which is `indent` if that is known. -/
def readBlockGap (indent : Option Nat) (column widest : Nat) : List Char → Option BlockGap
  | [] => some { breaks := [], column, widest := max widest column, rest := [] }
  | c :: cs =>
      let inside := (indent.map fun n => decide (column < n)).getD true
      if c = ' ' ∧ inside then readBlockGap indent (column + 1) widest cs
      else if c = '\t' ∧ inside then none
      else if isBreak c then
        (readBlockGap indent 0 (max widest column) cs).map fun gap =>
          { gap with breaks := c :: gap.breaks }
      else some { breaks := [], column, widest := max widest column, rest := c :: cs }

/-- What stands between two lines of a scalar: the end of the first one and empty lines. -/
def joinBlockLines (folded : Bool) (lineEnd breaks : List Char) : List Char :=
  if folded && lineEnd = ['\n'] then if breaks.isEmpty then [' '] else breaks
  else lineEnd ++ breaks

/-- Whether a text starts with a space or a tab. -/
def startsSpace : List Char → Bool
  | c :: _ => isSpace c
  | [] => false

/-- What becomes of the end of the last line and the empty lines after it. -/
def Chomping.tail (c : Chomping) (lineEnd breaks : List Char) : List Char :=
  match c with
  | strip => []
  | clip => lineEnd
  | keep => lineEnd ++ breaks

/--
Reads the lines of a scalar after the gap in front of them, given the end of the line before and
whether that line starts with a space.  The first argument bounds the number of lines.
-/
def readBlockLines (folded : Bool) (chomping : Chomping) (indent : Nat) :
    Nat → List Char → Bool → BlockGap → Option (List Char × List Char)
  | 0, _, _, _ => none
  | fuel + 1, lineEnd, spaced, gap =>
      if gap.column = indent ∧ gap.rest ≠ [] then
        let line := firstLine gap.rest
        let after := gap.rest.drop line.length
        let join :=
          joinBlockLines (folded && !spaced && !startsSpace line) lineEnd gap.breaks
        match readBlockGap (some indent) (if after.isEmpty then indent + line.length else 0) 0
            after.tail with
        | none => none
        | some next =>
            (readBlockLines folded chomping indent fuel (after.take 1) (startsSpace line)
              next).map fun (text, rest) => (join ++ line ++ text, rest)
      else some (chomping.tail lineEnd gap.breaks, gap.rest)

/-- Reads a block scalar after its mark.  Its lines are deeper than `base` characters. -/
def readBlock (folded : Bool) (base : Nat) (cs : List Char) : Option (List Char × List Char) :=
  match readBlockHeader cs with
  | none => none
  | some (header, cs) =>
      match dropLineEnd cs with
      | none => none
      | some cs =>
          let stated := header.increment.map fun n => base - 1 + n
          match readBlockGap stated 0 0 cs with
          | none => none
          | some gap =>
              let indent := stated.getD (max gap.widest (max base 1))
              readBlockLines folded header.chomping indent (cs.length + 1) [] false gap

end Yaml
end TemplateModules
