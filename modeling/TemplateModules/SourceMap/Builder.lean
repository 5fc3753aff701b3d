import TemplateModules.Json.Value
import TemplateModules.Source.Span
import TemplateModules.SourceMap.Vlq

/-!
# Building source maps

A source map relates places in generated text to places in one source.  It is built while the text
is written: `advance` follows the text, and `map` relates the place that it has reached.
-/

namespace TemplateModules
namespace SourceMap

/-- A place in the generated text and the place in the source that it comes from. -/
structure Mapping where
  generatedLine : Nat
  generatedColumn : Nat
  sourceLine : Nat
  sourceColumn : Nat
  /-- The position of a name in the list of names. -/
  name : Option Nat
  deriving DecidableEq, Repr

/-- A source map while it is built.  Lines and columns count from zero. -/
structure Builder where
  file : Option String
  source : String
  contents : List String
  names : List String
  mappings : List Mapping
  line : Nat
  column : Nat
  deriving Repr

namespace Builder

/-- The source map of a text that has not begun. -/
def new (source : String) : Builder :=
  { file := none, source, contents := [], names := [], mappings := [], line := 0, column := 0 }

/-- Names the generated file. -/
def setFile (b : Builder) (file : String) : Builder :=
  { b with file := some file }

/-- Adds the text of the source. -/
def addContent (b : Builder) (text : String) : Builder :=
  { b with contents := b.contents ++ [text] }

/-- Moves the place past one character. -/
def step (b : Builder) (c : Char) : Builder :=
  if c = '\n' then { b with line := b.line + 1, column := 0 } else { b with column := b.column + 1 }

/-- Moves the place past a text. -/
def advance (b : Builder) (text : String) : Builder :=
  text.toList.foldl step b

/-- The position of a name in a list, at whose end it is added if it is new. -/
def intern (name : String) (names : List String) : Nat × List String :=
  match names.findIdx? (· == name) with
  | some i => (i, names)
  | none => (names.length, names ++ [name])

/-- Relates the place that has been reached to the start of a span. -/
def map (b : Builder) (span : Span) (name : Option String) : Builder :=
  let (name, names) : Option Nat × List String :=
    match name with
    | none => (none, b.names)
    | some name =>
        let (i, names) := intern name b.names
        (some i, names)
  let mapping : Mapping :=
    { generatedLine := b.line, generatedColumn := b.column,
      sourceLine := span.line - 1, sourceColumn := span.column, name }
  { b with names, mappings := b.mappings ++ [mapping] }

end Builder

/-- What the fields of a mapping are written relative to. -/
structure Previous where
  generatedLine : Nat
  generatedColumn : Nat
  sourceLine : Nat
  sourceColumn : Nat
  name : Nat
  deriving Repr

namespace Previous

/-- What the first mapping is written relative to. -/
def start : Previous :=
  { generatedLine := 0, generatedColumn := 0, sourceLine := 0, sourceColumn := 0, name := 0 }

end Previous

/-- The difference of two positions, as an integer of 32 bits. -/
def delta (now before : Nat) : Int32 :=
  Int32.ofNat now - Int32.ofNat before

/-- The fields of a mapping, one after another. -/
def segment? (p : Previous) (m : Mapping) : Option (List Char) := do
  let column ← vlq? (delta m.generatedColumn p.generatedColumn)
  let source ← vlq? 0
  let line ← vlq? (delta m.sourceLine p.sourceLine)
  let sourceColumn ← vlq? (delta m.sourceColumn p.sourceColumn)
  let name ←
    match m.name with
    | none => some []
    | some i => vlq? (delta i p.name)
  return column ++ source ++ line ++ sourceColumn ++ name

/--
Mappings as text: a semicolon for each new line and a comma between the segments of a line.  The
first flag says that something is written already.
-/
def encode? : Bool → Previous → List Mapping → Option (List Char)
  | _, _, [] => some []
  | written, p, m :: ms => do
      let newLines := m.generatedLine - p.generatedLine
      let p := if newLines = 0 then p else { p with generatedColumn := 0 }
      let separator :=
        if newLines = 0 then (if written then [','] else []) else List.replicate newLines ';'
      let segment ← segment? p m
      let next : Previous :=
        { generatedLine := max p.generatedLine m.generatedLine,
          generatedColumn := m.generatedColumn,
          sourceLine := m.sourceLine, sourceColumn := m.sourceColumn,
          name := m.name.getD p.name }
      let rest ← encode? true next ms
      return separator ++ segment ++ rest

namespace Builder

/-- The mappings as text.  There is none if a difference has no written form. -/
def mappingsText? (b : Builder) : Option String :=
  (encode? false .start b.mappings).map String.ofList

/-- The source map as an object, with given mappings. -/
def toJson (b : Builder) (mappings : String) : Json :=
  .object <|
    [("version", .number (.int 3))] ++
      (b.file.map fun file => ("file", Json.text file)).toList ++
      [("sources", .texts [b.source])] ++
      (if b.contents.isEmpty then [] else [("sourcesContent", .texts b.contents)]) ++
      [("names", .texts b.names), ("mappings", .text mappings)]

def text? (b : Builder) : Option String :=
  b.mappingsText?.map fun mappings => (b.toJson mappings).write

end Builder
end SourceMap
end TemplateModules
