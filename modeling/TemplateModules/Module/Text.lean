import TemplateModules.Config.Basic
import TemplateModules.Json.Written
import TemplateModules.Module.Binding
import TemplateModules.Spec.Artifact
import TemplateModules.Text.Base64

/-!
# The text of a module

A module imports the runtime, the helpers and the partials that its template refers to, registers
them, and exports the template.  It may end with a source map, whose lines are moved down by the
lines in front of the template.
-/

namespace TemplateModules
namespace Module

open Text

/-- The helpers and partials that a template refers to, each once, in the order of reference. -/
structure References where
  helpers : List String
  partials : List String
  deriving DecidableEq, Repr, Inhabited

namespace References

def none : References := { helpers := [], partials := [] }

/-- A name at the end of a list, unless it is in the list. -/
def addName (names : List String) (name : String) : List String :=
  if names.contains name then names else names ++ [name]

/-- The references with one more name, if it is the name of a helper or of a partial. -/
def add (refs : References) (name : String) (kind : Spec.LookupKind) : References :=
  match kind with
  | .helper => { refs with helpers := addName refs.helpers name }
  | .inclusion => { refs with partials := addName refs.partials name }
  | .context => refs
  | .data => refs

/-- The references among the names that a compilation reports. -/
def ofLookups (lookups : List Spec.Lookup) : References :=
  lookups.foldl (fun refs l => refs.add l.name l.kind) .none

end References

/-- An import of a helper or a partial. -/
structure Import where
  name : String
  /-- The local name. -/
  binding : String
  /-- The module that the name is imported from. -/
  specifier : String
  deriving DecidableEq, Repr

/-- The imports of those names that are in a table, and the local names that are taken then. -/
def matchNames (kind : ExtensionKind) (table : Fields String) :
    List String → List String → List Import × List String
  | used, [] => ([], used)
  | used, name :: names =>
      match table.get? name with
      | none => matchNames kind table used names
      | some specifier =>
          let binding := bind used kind.name name
          let (imports, used) := matchNames kind table (binding :: used) names
          ({ name, binding, specifier } :: imports, used)

structure Imports where
  helpers : List Import
  partials : List Import
  deriving DecidableEq, Repr

def importsOf (refs : References) (table : ExtensionTable) : Imports :=
  let (helpers, used) := matchNames .helper table.helpers [runtimeName] refs.helpers
  let (partials, _) := matchNames .inclusion table.partials used refs.partials
  { helpers, partials }

def runtimeLine (runtimeModule : String) : String :=
  "import * as " ++ runtimeName ++ " from " ++ quoted runtimeModule ++ ";"

namespace Import

def line (i : Import) : String :=
  "import " ++ i.binding ++ " from " ++ quoted i.specifier ++ ";"

/-- The name of an import with its local name. -/
def entry (i : Import) : String :=
  quoted i.name ++ ": " ++ i.binding

end Import

/-- The line that registers imports. -/
def registrationLine (function : String) (imports : List Import) : String :=
  runtimeName ++ "." ++ function ++ "(\x7b" ++ ", ".intercalate (imports.map Import.entry) ++
    "\x7d);"

/-- The lines in front of the template. -/
def headerLines (runtimeModule : String) (imports : Imports) : List String :=
  [runtimeLine runtimeModule] ++ (imports.helpers ++ imports.partials).map Import.line ++
    [registrationLine "registerHelper" imports.helpers,
      registrationLine "registerPartial" imports.partials]

def templateLine (code : String) : String :=
  "export default " ++ runtimeName ++ ".template(" ++ code ++ ");"

/-- The value of a source map whose mappings are moved down by lines. -/
def shiftMappings (lines : Nat) : Json → Json
  | .object fields =>
      match Fields.get? fields "mappings" with
      | some (.text mappings) =>
          .object (Fields.insert fields "mappings"
            (.text (String.ofList (List.replicate lines ';') ++ mappings)))
      | _ => .object fields
  | value => value

/-- The text of a source map moved down by lines, unless it cannot be read. -/
def shiftMap? (lines : Nat) (map : String) : Option String :=
  (Json.read? map).map fun value => (shiftMappings lines value).write

/-- The line of a source map. -/
def mapLine (map : String) : String :=
  "//# sourceMappingURL=data:application/json;base64," ++ base64Text map

/-- How modules are written. -/
structure Style where
  runtimeModule : String
  inlineSourceMap : Bool
  deriving DecidableEq, Repr

def lines (style : Style) (artifact : Spec.Artifact) (imports : Imports) : List String :=
  let header := headerLines style.runtimeModule imports
  let map := if style.inlineSourceMap then artifact.map.bind (shiftMap? header.length) else none
  header ++ [templateLine artifact.code] ++ (map.map mapLine).toList

def text (style : Style) (artifact : Spec.Artifact) (refs : References)
    (table : ExtensionTable) : String :=
  "\n".intercalate (lines style artifact (importsOf refs table))

end Module
end TemplateModules
