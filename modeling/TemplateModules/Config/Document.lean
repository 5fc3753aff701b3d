import TemplateModules.Config.Basic
import TemplateModules.Yaml.Decode

/-!
# Configurations in YAML

A configuration is a mapping with an entry for each of its parts, or nothing.  A part that is left
out has the value of a project that says nothing.  An entry may stand once only; entries of other
names are not looked at.
-/

namespace TemplateModules
namespace Config

/-- Puts an entry into a configuration.  A name that no part has changes nothing. -/
def setEntry (d : Yaml.Decoder) (c : Config) (name : String) (node : Yaml.Node) :
    Yaml.Decode Config := do
  match name with
  | "helpers" => return { c with helpers := ← d.textFields node }
  | "partials" => return { c with partials := ← d.textFields node }
  | "compileOptions" =>
      return { c with compileOptions := ← d.object (Yaml.Decoder.maxDepth - 1) node }
  | "runtimeModule" => return { c with runtimeModule := ← d.text node }
  | "extensions" => return { c with extensions := ← d.texts node }
  | "inlineSourceMap" => return { c with inlineSourceMap := ← d.bool node }
  | _ => return c

/-- Puts entries into a configuration, given the names that may still come. -/
def setEntries (d : Yaml.Decoder) (c : Config) (expected : List String) :
    List (Yaml.Node × Yaml.Node) → Yaml.Decode Config
  | [] => return c
  | (key, node) :: entries => do
      let name ← d.text key
      if expected.contains name then
        let c ← setEntry d c name node
        setEntries d c (expected.erase name) entries
      else if partNames.contains name then failure
      else setEntries d c expected entries

/-- The configuration that a document is. -/
def ofDocument? (document : Yaml.Document) : Option Config :=
  match document.root with
  | none => some .initial
  | some node =>
      let d := Yaml.Decoder.ofDocument document
      let read : Yaml.Decode Config := do setEntries d .initial partNames (← d.pairs node)
      (read.run 0).map Prod.fst

/-- The configuration that a text in YAML stands for. -/
def ofYamlText? (s : String) : Option Config :=
  (Yaml.document? s).bind ofDocument?

end Config
end TemplateModules
