/-!
# Places in a YAML text

A cursor is the rest of a text together with the place where it starts: the number of bytes before
it, its line, and its column, which counts characters.  The ends of lines are normalised first, so
that all of them are line feeds, apart from the two separators of Unicode, which are kept.
-/

namespace TemplateModules
namespace Yaml

/-- Whether a character may stand in a text. -/
def isAllowed (c : Char) : Bool :=
  let n := c.toNat
  n == 0x09 || n == 0x0a || n == 0x0d || (0x20 ≤ n && n ≤ 0x7e) || n == 0x85 ||
    (0xa0 ≤ n && n ≤ 0xd7ff) || (0xe000 ≤ n && n ≤ 0xfffd) || 0x10000 ≤ n

/-- Writes every end of a line as a line feed: both of a pair, a carriage return, a next line. -/
def normaliseLines : List Char → List Char
  | '\r' :: '\n' :: cs => '\n' :: normaliseLines cs
  | c :: cs => (if c = '\r' ∨ c = '\u0085' then '\n' else c) :: normaliseLines cs
  | [] => []

/-- Whether a character ends a line. -/
def isBreak (c : Char) : Bool :=
  c = '\n' || c = '\u2028' || c = '\u2029'

/-- Whether a character is a space or a tab. -/
def isSpace (c : Char) : Bool :=
  c = ' ' || c = '\t'

/-- Whether a character parts words. -/
def isGap (c : Char) : Bool :=
  isSpace c || isBreak c

/-- Whether a text is empty or starts with a character that parts words. -/
def startsGap : List Char → Bool
  | [] => true
  | c :: _ => isGap c

/-- Whether a character may stand in the name of an anchor or a handle. -/
def isNameChar (c : Char) : Bool :=
  c.isAlphanum || c = '-' || c = '_'

/-- Whether a text starts with a mark that ends a document or starts one. -/
def startsWithMark : List Char → Bool
  | '-' :: '-' :: '-' :: cs => startsGap cs
  | '.' :: '.' :: '.' :: cs => startsGap cs
  | _ => false

/-- A place in a text. -/
structure Cursor where
  rest : List Char
  index : Nat
  line : Nat
  column : Nat
  deriving Repr, Inhabited

namespace Cursor

/-- The start of a text. -/
def start (cs : List Char) : Cursor :=
  { rest := cs, index := 0, line := 0, column := 0 }

/-- The place after the next character. -/
def next (c : Cursor) : Cursor :=
  match c.rest with
  | [] => c
  | x :: rest =>
      let index := c.index + x.utf8Size
      if isBreak x then { rest, index, line := c.line + 1, column := 0 }
      else { rest, index, line := c.line, column := c.column + 1 }

/-- The place after a number of characters. -/
def advance (c : Cursor) : Nat → Cursor
  | 0 => c
  | n + 1 => c.next.advance n

/-- The place at which a rest of the text starts. -/
def moveTo (c : Cursor) (rest : List Char) : Cursor :=
  c.advance (c.rest.length - rest.length)

end Cursor
end Yaml
end TemplateModules
