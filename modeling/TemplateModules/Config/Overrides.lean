import TemplateModules.Config.Error

/-!
# Overrides

The command line may add names to the tables of a configuration, give names other specifiers, set
the module of the runtime, and ask for source maps.
-/

namespace TemplateModules

/-- What the command line changes in a configuration. -/
structure Overrides where
  helpers : List (String × String)
  partials : List (String × String)
  runtimeModule : Option String
  inlineSourceMap : Bool
  deriving DecidableEq, Repr, Inhabited

namespace Overrides

/-- The text before and after the first equals sign. -/
def splitEquals : List Char → Option (List Char × List Char)
  | [] => none
  | c :: cs =>
      if c = '=' then some ([], cs)
      else (splitEquals cs).map fun (name, specifier) => (c :: name, specifier)

/-- The name and the specifier that an override gives, without the blanks around them. -/
def parsePair (kind : ExtensionKind) (value : String) : Except ConfigError (String × String) :=
  match splitEquals value.toList with
  | none => .error (.invalidOverride kind value)
  | some (name, specifier) =>
      let name := Text.trim name
      let specifier := Text.trim specifier
      if name.isEmpty || specifier.isEmpty then .error (.invalidOverride kind value)
      else .ok (String.ofList name, String.ofList specifier)

end Overrides

namespace Config

/-- A table with pairs put into it one after another. -/
def insertAll (table : Fields String) (pairs : List (String × String)) : Fields String :=
  pairs.foldl (fun table (name, specifier) => table.insert name specifier) table

/-- A configuration with overrides put into it. -/
def merge (c : Config) (o : Overrides) : Config :=
  { c with
    helpers := insertAll c.helpers o.helpers
    partials := insertAll c.partials o.partials
    runtimeModule := o.runtimeModule.getD c.runtimeModule
    inlineSourceMap := c.inlineSourceMap || o.inlineSourceMap }

end Config
end TemplateModules
