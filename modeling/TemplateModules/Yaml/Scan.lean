import TemplateModules.Yaml.Block
import TemplateModules.Yaml.Plain
import TemplateModules.Yaml.Tag

/-!
# From text to tokens

The columns in which the open blocks start form a stack.  A word is a key if a colon follows it on
the same line; a place where such a word starts is remembered until the line ends, one for each
open bracket.  When the colon comes, the tokens that announce the key are put in at that place.
-/

namespace TemplateModules
namespace Yaml

/-- A place where a key may have started. -/
structure KeyPlace where
  /-- The block needs a key in this place. -/
  required : Bool
  /-- The number of tokens in front of the place. -/
  number : Nat
  index : Nat
  line : Nat
  column : Nat
  deriving Repr

/-- The most bytes from the start of a key to its colon. -/
def maxKeyLength : Nat := 1024

/-- The state of the scanner. -/
structure Scanner where
  cursor : Cursor
  /-- The tokens so far, the last one first. -/
  tokens : List Token
  /-- The columns of the open blocks, the innermost first. -/
  blocks : List Nat
  /-- The place where a key may have started inside the innermost bracket. -/
  pending : Option KeyPlace
  /-- The same for the brackets around it; as many as there are open brackets. -/
  outer : List (Option KeyPlace)
  /-- A key may start here. -/
  keyAllowed : Bool
  deriving Repr

namespace Scanner

/-- The scanner at the start of a text. -/
def start (cs : List Char) : Scanner where
  cursor := .start cs
  tokens := []
  blocks := []
  pending := none
  outer := []
  keyAllowed := true

/-- Whether the scanner is between brackets. -/
def inFlow (s : Scanner) : Bool :=
  !s.outer.isEmpty

/-- The smallest column of what belongs to the innermost block. -/
def innerColumn (s : Scanner) : Nat :=
  match s.blocks with
  | [] => 0
  | column :: _ => column + 1

/-- Adds a token. -/
def emit (s : Scanner) (t : Token) : Scanner :=
  { s with tokens := t :: s.tokens }

/-- Puts a token in after a number of tokens. -/
def emitAt (s : Scanner) (number : Nat) (t : Token) : Scanner :=
  let later := s.tokens.length - number
  { s with tokens := s.tokens.take later ++ t :: s.tokens.drop later }

/-- Moves to the place at which a rest of the text starts. -/
def moveTo (s : Scanner) (rest : List Char) : Scanner :=
  { s with cursor := s.cursor.moveTo rest }

/-- Adds a token that is a number of characters long. -/
def take (s : Scanner) (length : Nat) (t : Token) : Scanner :=
  { s.emit t with cursor := s.cursor.advance length }

/-- Drops blank characters in a line.  Tabs count as blank where they cannot be indentation. -/
def dropBlanks (tabs : Bool) : List Char → List Char
  | c :: cs => if c = ' ' ∨ (tabs ∧ c = '\t') then dropBlanks tabs cs else c :: cs
  | [] => []

/-- A mark that may stand in front of a line. -/
def byteOrderMark : Char := '\ufeff'

/-- Moves past a mark in front of a line.  The line starts one column later then. -/
def skipMark (s : Scanner) : Scanner :=
  if s.cursor.column = 0 ∧ s.cursor.rest.head? = some byteOrderMark then
    { s with cursor := s.cursor.next }
  else s

/-- Moves to the next token.  The first argument bounds the number of lines. -/
def skipGaps : Nat → Scanner → Scanner
  | 0, s => s
  | fuel + 1, s =>
      let s := s.skipMark
      let rest := dropBlanks (s.inFlow || !s.keyAllowed) s.cursor.rest
      let rest := if rest.head? = some '#' then rest.dropWhile fun c => !isBreak c else rest
      match rest with
      | [] => s.moveTo []
      | c :: after =>
          if isBreak c then
            skipGaps fuel { s.moveTo after with keyAllowed := s.keyAllowed || !s.inFlow }
          else s.moveTo rest

/-- Whether a place is too far back for a key. -/
def isStale (c : Cursor) (place : KeyPlace) : Bool :=
  place.line < c.line || place.index + maxKeyLength < c.index

/-- Forgets a place that is too far back.  Fails if the block needs a key there. -/
def refreshPlace (c : Cursor) : Option KeyPlace → Option (Option KeyPlace)
  | none => some none
  | some place =>
      if !isStale c place then some (some place)
      else if place.required then none
      else some none

/-- Forgets all places that are too far back. -/
def refreshPlaces (s : Scanner) : Option Scanner :=
  match refreshPlace s.cursor s.pending, s.outer.mapM (refreshPlace s.cursor) with
  | some pending, some outer => some { s with pending, outer }
  | _, _ => none

/-- Forgets the innermost place.  Fails if the block needs a key there. -/
def dropPlace (s : Scanner) : Option Scanner :=
  match s.pending with
  | some place => if place.required then none else some { s with pending := none }
  | none => some s

/-- Remembers that a key may start here. -/
def savePlace (s : Scanner) : Option Scanner :=
  if s.keyAllowed then
    s.dropPlace.map fun s =>
      { s with
        pending := some
          { required := !s.inFlow && s.blocks.head? = some s.cursor.column
            number := s.tokens.length
            index := s.cursor.index
            line := s.cursor.line
            column := s.cursor.column } }
  else some s

/-- Closes the blocks of a list that start at a column or after it. -/
def closeBlocks (column : Nat) : List Nat → List Token → List Nat × List Token
  | [], tokens => ([], tokens)
  | block :: blocks, tokens =>
      if column ≤ block then closeBlocks column blocks (.blockEnd :: tokens)
      else (block :: blocks, tokens)

/-- Closes the blocks that start at a column or after it. -/
def closeTo (s : Scanner) (column : Nat) : Scanner :=
  if s.inFlow then s
  else
    let (blocks, tokens) := closeBlocks column s.blocks s.tokens
    { s with blocks, tokens }

/-- Opens a block at a column, unless one is open there; its token comes after `number` others. -/
def openBlock (s : Scanner) (column number : Nat) (t : Token) : Scanner :=
  if s.inFlow || column < s.innerColumn then s
  else { s.emitAt number t with blocks := column :: s.blocks }

def openBlockHere (s : Scanner) (t : Token) : Scanner :=
  s.openBlock s.cursor.column s.tokens.length t

/-- Adds a mark of documents, which closes all blocks. -/
def markDocument (s : Scanner) (t : Token) : Option Scanner :=
  (s.closeTo 0).dropPlace.map fun s => ({ s with keyAllowed := false }).take 3 t

/-- Adds a directive with the rest of its line. -/
def directive (s : Scanner) : Option Scanner :=
  (s.closeTo 0).dropPlace.bind fun s =>
    match readDirective s.cursor.rest.tail with
    | none => none
    | some (t, rest) =>
        (dropLineEnd rest).map fun rest => ({ s with keyAllowed := false }.emit t).moveTo rest

/-- Adds an opening bracket. -/
def openBracket (s : Scanner) (t : Token) : Option Scanner :=
  s.savePlace.map fun s =>
    ({ s with outer := s.pending :: s.outer, pending := none, keyAllowed := true }).take 1 t

/-- Adds a closing bracket, also one that was not opened. -/
def closeBracket (s : Scanner) (t : Token) : Option Scanner :=
  s.dropPlace.map fun s =>
    let s :=
      match s.outer with
      | [] => s
      | pending :: outer => { s with pending, outer }
    ({ s with keyAllowed := false }).take 1 t

/-- Adds a comma. -/
def comma (s : Scanner) : Option Scanner :=
  s.dropPlace.map fun s => ({ s with keyAllowed := true }).take 1 .flowEntry

/-- Adds the dash of an entry. -/
def dash (s : Scanner) : Option Scanner :=
  if !s.inFlow && !s.keyAllowed then none
  else
    (s.openBlockHere .blockSequenceStart).dropPlace.map fun s =>
      ({ s with keyAllowed := true }).take 1 .blockEntry

/-- Adds a question mark in front of a key. -/
def question (s : Scanner) : Option Scanner :=
  if !s.inFlow && !s.keyAllowed then none
  else
    (s.openBlockHere .blockMappingStart).dropPlace.map fun s =>
      ({ s with keyAllowed := !s.inFlow }).take 1 .key

/-- Adds a colon.  What stands before it is a key if a place for one is remembered. -/
def colon (s : Scanner) : Option Scanner :=
  match s.pending with
  | some place =>
      let s := (s.emitAt place.number .key).openBlock place.column place.number .blockMappingStart
      some (({ s with pending := none, keyAllowed := false }).take 1 .value)
  | none =>
      if !s.inFlow && !s.keyAllowed then none
      else
        let s := s.openBlockHere .blockMappingStart
        some (({ s with keyAllowed := !s.inFlow }).take 1 .value)

/-- Whether a text starts with a character that may follow the name of an anchor. -/
def endsName (cs : List Char) : Bool :=
  startsGap cs || (cs.head?.map "?:,]\x7d%@\u0060".toList.contains).getD false

/-- Adds an anchor or an alias. -/
def anchor (s : Scanner) (t : List Char → Token) : Option Scanner :=
  s.savePlace.bind fun s =>
    let name := s.cursor.rest.tail.takeWhile isNameChar
    let rest := s.cursor.rest.tail.dropWhile isNameChar
    if name.isEmpty || !endsName rest then none
    else some (({ s with keyAllowed := false }.emit (t name)).moveTo rest)

/-- Adds a tag. -/
def tag (s : Scanner) : Option Scanner :=
  s.savePlace.bind fun s =>
    match readTag s.cursor.rest with
    | none => none
    | some (t, rest) =>
        if startsGap rest || (s.inFlow && rest.head? = some ',') then
          some (({ s with keyAllowed := false }.emit (.tag t)).moveTo rest)
        else none

/-- Adds a block scalar. -/
def block (s : Scanner) (style : Style) : Option Scanner :=
  s.dropPlace.bind fun s =>
    (readBlock (style = .folded) s.innerColumn s.cursor.rest.tail).map fun (text, rest) =>
      ({ s with keyAllowed := true }.emit (.scalar text style)).moveTo rest

/-- Adds a quoted scalar. -/
def quoted (s : Scanner) (style : Style) : Option Scanner :=
  s.savePlace.bind fun s =>
    let cs := s.cursor.rest.tail
    let read :=
      if style = .singleQuoted then readSingleQuoted (cs.length + 1) cs
      else readDoubleQuoted (cs.length + 1) cs
    read.map fun (text, rest) =>
      ({ s with keyAllowed := false }.emit (.scalar text style)).moveTo rest

/-- Adds a plain scalar. -/
def plain (s : Scanner) : Option Scanner :=
  s.savePlace.bind fun s =>
    let cs := s.cursor.rest
    (readPlain s.inFlow s.innerColumn (cs.length + 1) cs).map fun found =>
      ({ s with keyAllowed := found.endsLine }.emit (.scalar found.text .plain)).moveTo found.rest

/-- Whether a plain scalar may start with a character, whatever follows it. -/
def startsPlain (c : Char) : Bool :=
  !isGap c && !("-?:,[]\x7b\x7d#&*!|>'\"%@\u0060".toList.contains c)

/-- Adds the token that starts with a character, given the characters after it. -/
def token (s : Scanner) (c : Char) (after : List Char) : Option Scanner :=
  let lineStart := s.cursor.column = 0
  let parted := startsGap after
  if lineStart ∧ c = '%' then s.directive
  else if lineStart ∧ startsWithMark (c :: after) then
    s.markDocument (if c = '-' then .documentStart else .documentEnd)
  else if c = '[' then s.openBracket .flowSequenceStart
  else if c = '\x7b' then s.openBracket .flowMappingStart
  else if c = ']' then s.closeBracket .flowSequenceEnd
  else if c = '\x7d' then s.closeBracket .flowMappingEnd
  else if c = ',' then s.comma
  else if c = '-' ∧ parted then s.dash
  else if c = '?' ∧ (s.inFlow ∨ parted) then s.question
  else if c = ':' ∧ (s.inFlow ∨ parted) then s.colon
  else if c = '*' then s.anchor .reference
  else if c = '&' then s.anchor .anchor
  else if c = '!' then s.tag
  else if c = '|' ∧ !s.inFlow then s.block .literal
  else if c = '>' ∧ !s.inFlow then s.block .folded
  else if c = '\'' then s.quoted .singleQuoted
  else if c = '"' then s.quoted .doubleQuoted
  else if startsPlain c ∨ c = '-' ∨ c = '?' ∨ c = ':' then s.plain
  else none

/-- Scans the rest of the text.  The first argument bounds the number of tokens. -/
def run : Nat → Scanner → Option (List Token)
  | 0, _ => none
  | fuel + 1, s =>
      let s := skipGaps (s.cursor.rest.length + 1) s
      match s.refreshPlaces with
      | none => none
      | some s =>
          match s.cursor.rest with
          | [] => (s.closeTo 0).dropPlace.map fun s => s.tokens.reverse
          | c :: after => ((s.closeTo (s.cursor.column + 1)).token c after).bind (run fuel)

end Scanner

/-- The tokens of a text. -/
def tokens? (s : String) : Option (List Token) :=
  if s.toList.all isAllowed then
    let cs := normaliseLines s.toList
    Scanner.run (cs.length + 1) (.start cs)
  else none

end Yaml
end TemplateModules
