import TemplateModules.Json.Value
import TemplateModules.Spec.Features

/-!
# The text of a template

A template is written as one object of JavaScript: the revision of the compiler, the main function,
the functions of the numbered sections, and what the code needs from the runtime.  Each function
appends to a buffer, one statement a line.
-/

namespace TemplateModules
namespace Spec

open Template Text

/-- The revision of the compiler that the runtime checks. -/
def compilerRevision : Nat := 8

/-- The versions of the runtime that accept the revision. -/
def revisionChanges : String := ">= 4.3.0"

/-- The head of every function. -/
def signature : String :=
  "function(container,depth0,helpers,partials,data,blockParams,depths) \x7b"

/-- The variables of every function. -/
def variablesLine : String :=
  "  var stack1, alias1 = depth0 != null ? depth0 : (container.nullContext || \x7b\x7d), " ++
  "buffer = \"\";"

/-- The definition of the function that reads a field. -/
def lookupPropertyLine : String :=
  "  var lookupProperty = container.lookupProperty || function(parent, propertyName) \x7b " ++
  "if (Object.prototype.hasOwnProperty.call(parent, propertyName)) \x7b " ++
  "return parent[propertyName]; \x7d return undefined; \x7d;"

/-- The definition of the function that follows a path. -/
def lookupPathLine : String :=
  "  var lookupPath = function(obj, parts) \x7b " ++
  "for (var i = 0; i < parts.length && obj != null; i++) \x7b obj = " ++
  "lookupProperty(obj, parts[i]); \x7d return obj; \x7d;"

/-- The definition of the function that follows a path and insists on every field. -/
def strictLookupPathLine : String :=
  "  var lookupPath = function(obj, parts) \x7b " ++
  "for (var i = 0; i < parts.length; i++) \x7b obj = " ++
  "container.strict(obj, parts[i]); \x7d return obj; \x7d;"

/-- The lines at the start of every function. -/
def preamble (strict : Bool) : List String :=
  [variablesLine, lookupPropertyLine, if strict then strictLookupPathLine else lookupPathLine]

/-- The lines at the end of every function. -/
def closingLines : String :=
  "  return buffer;\n\x7d"

/-- A value, or nothing if it is absent. -/
def orEmpty (code : String) : String :=
  "((stack1 = " ++ code ++ ") != null ? stack1 : \"\")"

def literalText : Literal → String
  | .text value => quoted value
  | .number numeral => numeral.text
  | .bool true => "true"
  | .bool false => "false"
  | .null => "null"
  | .undefined => "undefined"

namespace Root

/-- The start of an access. -/
def code : Root → String
  | context => "depth0"
  | parent depth => "depths[" ++ toString depth ++ "]"
  | data => "data"
  | blockParam level index => "blockParams[" ++ toString level ++ "][" ++ toString index ++ "]"

end Root

namespace Access

/-- An access, from its root down through its fields. -/
def code (access : Access) : String :=
  match access.parts with
  | [] => access.root.code
  | parts => "lookupPath(" ++ access.root.code ++ ", " ++ (Json.texts parts).write ++ ")"

end Access

namespace SectionRef

/-- A section, as the runtime takes it. -/
def code (ref : SectionRef) : String :=
  "container.program(" ++ toString ref.number ++ ", data, " ++ toString ref.params ++
    ", blockParams, depths)"

end SectionRef

/-- The sections that a block passes to its helper. -/
def sectionsText (main : SectionRef) (inverse : Option SectionRef) : String :=
  ",\"fn\":" ++ main.code ++ ",\"inverse\":" ++ (inverse.map SectionRef.code).getD "container.noop"

/-- The place of a tag in its source. -/
def placeText (tag : Span) : String :=
  "\x7b\"start\":\x7b\"line\":" ++ toString tag.line ++ ",\"column\":" ++ toString tag.column ++
    "\x7d,\"end\":\x7b\"line\":" ++ toString tag.endLine ++ ",\"column\":" ++
    toString tag.endColumn ++ "\x7d\x7d"

/-- The last argument of a helper. -/
def optionsText (name hash sections : String) (tag : Span) : String :=
  "\x7b\"name\":" ++ quoted name ++ ",\"hash\":" ++ hash ++ sections ++
    ",\"data\":data,\"loc\":" ++ placeText tag ++ "\x7d"

/-- The reading of a helper. -/
def helperText (name : String) : String :=
  "lookupProperty(helpers," ++ quoted name ++ ")"

/-- The reading of a partial. -/
def partialText (name : String) : String :=
  "lookupProperty(partials," ++ quoted name ++ ")"

/-- No arguments with names. -/
def noHash : String := "\x7b\x7d"

mutual

def Value.code : Value → String
  | .literal value => literalText value
  | .access access => access.code
  | .call call => call.code ""

/-- A call of a helper, with the sections that are passed to it. -/
def HelperCall.code (sections : String) : HelperCall → String
  | { name, known, params, hash, tag } =>
      let callee :=
        if known then helperText name
        else "(" ++ helperText name ++ " || container.hooks.helperMissing)"
      callee ++ ".call(alias1" ++ paramsText params ++ ", " ++
        optionsText name ("\x7b" ++ hashText hash ++ "\x7d") sections tag ++ ")"

/-- Positional arguments, each with a comma before it. -/
def paramsText : List Value → String
  | [] => ""
  | v :: vs => "," ++ v.code ++ paramsText vs

/-- Arguments with names, with commas between them. -/
def hashText : List (String × Value) → String
  | [] => ""
  | [(key, v)] => quoted key ++ ":" ++ v.code
  | (key, v) :: hash => quoted key ++ ":" ++ v.code ++ "," ++ hashText hash

end

namespace Shown

/-- What a mustache shows. -/
def code : Shown → String
  | value v => v.code
  | lambda access => "container.lambda(" ++ access.code ++ ", depth0)"
  | helperOrField name access tag =>
      "(typeof (stack1 = (" ++ helperText name ++ " || " ++ access.code ++
        ")) === \"function\" ? stack1.call(alias1, " ++ optionsText name noHash "" tag ++
        ") : stack1)"

end Shown

/-- A block over a value, as the runtime runs it. -/
def valueBlockText (access : Access) (options : String) : String :=
  "container.hooks.blockHelperMissing.call(depth0, " ++ access.code ++ ", " ++ options ++ ")"

namespace Opening

/-- A block. -/
def code (sections : String) : Opening → String
  | helper call => call.code sections
  | value access name tag => valueBlockText access (optionsText name noHash sections tag)
  | helperOrValue called access name tag =>
      let options := optionsText name noHash sections tag
      "(typeof (stack1 = " ++ helperText called ++
        ") === \"function\" ? stack1.call(alias1, " ++ options ++ ") : " ++
        valueBlockText access options ++ ")"

end Opening

/-- The arguments with names of a partial, if there are any. -/
def inclusionHashText (hash : List (String × Value)) : String :=
  if hash.isEmpty then "" else ",\"hash\":\x7b" ++ hashText hash ++ "\x7d"

/-- The inclusion of a partial. -/
def inclusionText (name : String) (context : Option Value) (hash : List (String × Value)) :
    String :=
  "container.invokePartial(" ++ partialText name ++ "," ++
    (context.map Value.code).getD "depth0" ++ ",\x7b\"name\":" ++ quoted name ++
    inclusionHashText hash ++
    ",\"data\":data,\"helpers\":helpers,\"partials\":partials," ++
    "\"decorators\":container.decorators\x7d)"

namespace Line

/-- What a line appends to the buffer. -/
def code : Line SectionRef → String
  | .text s => quoted s
  | .mustache true shown _ => "container.escapeExpression(" ++ shown.code ++ ")"
  | .mustache false shown _ => orEmpty shown.code
  | .block opening main inverse _ => orEmpty (opening.code (sectionsText main inverse))
  | .inclusion name context hash _ => orEmpty (inclusionText name context hash)

def statement (line : Line SectionRef) : String :=
  "buffer += " ++ line.code ++ ";"

end Line

/-- Lines with their ends. -/
def linesText (lines : List String) : String :=
  String.join (lines.map (· ++ "\n"))

theorem linesText_nil : linesText [] = "" := rfl

theorem linesText_cons (line : String) (lines : List String) :
    linesText (line :: lines) = line ++ "\n" ++ linesText lines := by
  simp [linesText]

theorem linesText_append (xs ys : List String) :
    linesText (xs ++ ys) = linesText xs ++ linesText ys := by
  simp [linesText]

namespace Function

/-- The text of a function up to its first statement. -/
def opening (strict : Bool) : String :=
  signature ++ "\n" ++ linesText (preamble strict)

def code (strict : Bool) (f : Function) : String :=
  opening strict ++ linesText (f.lines.map ("  " ++ ·.statement)) ++ closingLines

end Function

/-- The functions of numbered sections, from a number on. -/
def childrenText (strict : Bool) : Nat → List Function → String
  | _, [] => ""
  | number, f :: fs =>
      ",\"" ++ toString number ++ "\":" ++ f.code strict ++ childrenText strict (number + 1) fs

namespace Layout

/-- The text in front of the main function. -/
def heading : String :=
  "\x7b\"compiler\":[" ++ toString compilerRevision ++ "," ++ quoted revisionChanges ++
    "],\"main\":"

/-- What the code needs from the runtime. -/
def flagsText (layout : Layout) : String :=
  ",\"useData\":true" ++ (if layout.usesDepths then ",\"useDepths\":true" else "") ++
    (if layout.usesBlockParams then ",\"useBlockParams\":true" else "") ++
    (if layout.usesPartials then ",\"usePartial\":true" else "")

def code (strict : Bool) (layout : Layout) : String :=
  heading ++ layout.main.code strict ++ childrenText strict 1 layout.children ++
    layout.flagsText ++ "\x7d"

end Layout
end Spec
end TemplateModules
