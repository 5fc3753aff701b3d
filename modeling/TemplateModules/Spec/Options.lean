import TemplateModules.Json.Value

/-!
# Compile options

The options of one compilation: the name of the source, which helpers are known, and further
options that are passed on as they are.
-/

namespace TemplateModules
namespace Spec

/-- The helpers that every runtime has. -/
def builtinHelpers : List String :=
  ["helperMissing", "blockHelperMissing", "each", "if", "unless", "with", "log", "lookup"]

/-- The options of one compilation. -/
structure Options where
  /-- The name of the source in source maps. -/
  srcName : Option String
  /-- The helpers that are known besides the built-in ones. -/
  knownHelpers : List String
  /-- Calls of other helpers are errors. -/
  knownHelpersOnly : Bool
  /-- Options that are passed on. -/
  extra : Fields Json
  deriving Repr, Inhabited

namespace Options

/-- Whether an option that is passed on is the value `true`. -/
def flag (options : Options) (key : String) : Bool :=
  ((options.extra.get? key).map Json.isTrue).getD false

/-- No value is escaped. -/
def noEscape (options : Options) : Bool :=
  options.flag "noEscape"

/-- A missing field is an error when the template runs. -/
def strict (options : Options) : Bool :=
  options.flag "strict"

/-- A source map is made. -/
def sourceMap (options : Options) : Bool :=
  options.flag "sourceMap"

/-- Whether a name is one of a known helper. -/
def isKnown (options : Options) (name : String) : Bool :=
  builtinHelpers.contains name || options.knownHelpers.contains name

end Options
end Spec
end TemplateModules
