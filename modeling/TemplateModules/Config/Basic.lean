import TemplateModules.Json.Value
import TemplateModules.Text.Blank

/-!
# Configurations

A configuration says which helpers and partials there are and where they are imported from, how
templates are compiled, and which files are templates.
-/

namespace TemplateModules

/-- The kinds of names that templates refer to modules by. -/
inductive ExtensionKind where
  | helper
  | inclusion
  deriving DecidableEq, Repr

namespace ExtensionKind

/-- The word for a kind. -/
def name : ExtensionKind → String
  | helper => "helper"
  | inclusion => "partial"

end ExtensionKind

/-- The modules that names are imported from. -/
structure ExtensionTable where
  helpers : Fields String
  partials : Fields String
  deriving DecidableEq, Repr, Inhabited

/-- A configuration. -/
structure Config where
  helpers : Fields String
  partials : Fields String
  /-- Options for the compiler. -/
  compileOptions : Fields Json
  /-- The module of the runtime. -/
  runtimeModule : String
  /-- The extensions of templates. -/
  extensions : List String
  /-- Modules end with their source map. -/
  inlineSourceMap : Bool
  deriving Repr

namespace Config

/-- The module of the runtime if nothing else is said. -/
def defaultRuntimeModule : String := "handlebars/runtime"

/-- The extensions of templates if nothing else is said. -/
def defaultExtensions : List String := ["hbs", "handlebars"]

/-- The configuration of a project that says nothing. -/
def initial : Config where
  helpers := []
  partials := []
  compileOptions := []
  runtimeModule := defaultRuntimeModule
  extensions := defaultExtensions
  inlineSourceMap := false

instance : Inhabited Config := ⟨initial⟩

/-- The names of the parts of a configuration, in their order. -/
def partNames : List String :=
  ["helpers", "partials", "compileOptions", "runtimeModule", "extensions", "inlineSourceMap"]

/-- The modules that names are imported from. -/
def table (c : Config) : ExtensionTable :=
  { helpers := c.helpers, partials := c.partials }

/-- A configuration as an object. -/
def toJson (c : Config) : Json :=
  .object
    [("helpers", .textFields c.helpers), ("partials", .textFields c.partials),
      ("compileOptions", .object c.compileOptions), ("runtimeModule", .text c.runtimeModule),
      ("extensions", .texts c.extensions), ("inlineSourceMap", .bool c.inlineSourceMap)]

/-- The text of a configuration. -/
def text (c : Config) : String :=
  c.toJson.write

end Config
end TemplateModules
