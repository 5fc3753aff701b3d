import TemplateModules.Config.Basic
import TemplateModules.Json.Written

/-!
# Configurations in JSON

A configuration is an object with a field for each of its parts, or a list of the parts in their
order.  A part that is left out has the value of a project that says nothing.  A field may stand
once only; fields of other names do not count.
-/

namespace TemplateModules
namespace Config

/-- The text that a value is. -/
def textOfWritten? : Written → Option String
  | .text s => s
  | _ => none

/-- The name and the specifier that a field is. -/
def entryOfWritten? (field : Option String × Written) : Option (String × String) :=
  match field.1, textOfWritten? field.2 with
  | some name, some specifier => some (name, specifier)
  | _, _ => none

/-- The table of names that a value is. -/
def tableOfWritten? : Written → Option (Fields String)
  | .object fields => (fields.mapM entryOfWritten?).map Fields.ofPairs
  | _ => none

/-- The nesting of the value of a part below that of the document. -/
def partDepth : Nat := Written.maxDepth - 1

/-- The options for the compiler that a value is. -/
def optionsOfWritten? (value : Written) : Option (Fields Json) :=
  match Written.valueWithin? partDepth value with
  | some (.object fields) => some fields
  | _ => none

/-- The list of texts that a value is. -/
def textsOfWritten? : Written → Option (List String)
  | .list values => values.mapM textOfWritten?
  | _ => none

/-- The truth value that a value is. -/
def boolOfWritten? : Written → Option Bool
  | .bool b => some b
  | _ => none

/-- Puts a part into a configuration.  A name that no part has changes nothing. -/
def setPart (c : Config) (name : String) (value : Written) : Option Config :=
  match name with
  | "helpers" => (tableOfWritten? value).map fun helpers => { c with helpers }
  | "partials" => (tableOfWritten? value).map fun partials => { c with partials }
  | "compileOptions" =>
      (optionsOfWritten? value).map fun compileOptions => { c with compileOptions }
  | "runtimeModule" =>
      (textOfWritten? value).map fun runtimeModule => { c with runtimeModule }
  | "extensions" => (textsOfWritten? value).map fun extensions => { c with extensions }
  | "inlineSourceMap" =>
      (boolOfWritten? value).map fun inlineSourceMap => { c with inlineSourceMap }
  | _ => some c

/-- Puts parts into a configuration, given the names that may still come. -/
def setFields (c : Config) (expected : List String) :
    List (Option String × Written) → Option Config
  | [] => some c
  | (none, _) :: _ => none
  | (some name, value) :: fields =>
      if expected.contains name then
        (c.setPart name value).bind fun c => setFields c (expected.erase name) fields
      else if partNames.contains name then none
      else setFields c expected fields

/-- Puts parts into a configuration, given their names in order. -/
def setParts (c : Config) : List String → List Written → Option Config
  | _, [] => some c
  | [], _ :: _ => none
  | name :: names, value :: values =>
      (c.setPart name value).bind fun c => setParts c names values

/-- The configuration that a document is. -/
def ofWritten? : Written → Option Config
  | .object fields => setFields .initial partNames fields
  | .list values => setParts .initial partNames values
  | _ => none

/-- The configuration that a text in JSON stands for. -/
def ofJsonText? (s : String) : Option Config :=
  (Written.read? s).bind ofWritten?

end Config
end TemplateModules
