import TemplateModules.Config.Basic
import TemplateModules.Files.Path

/-!
# Errors of configurations
-/

namespace TemplateModules

/-- Why a configuration is refused. -/
inductive ConfigError where
  /-- The file could not be read or written. -/
  | unreadable (path : FilePath) (reason : String)
  /-- The file is no configuration in YAML. -/
  | notYaml (path : FilePath)
  /-- The file is no configuration in JSON. -/
  | notJson (path : FilePath)
  | emptyName (kind : ExtensionKind)
  | emptySpecifier (kind : ExtensionKind) (name : String)
  /-- An override is no name with a specifier. -/
  | invalidOverride (kind : ExtensionKind) (value : String)
  deriving DecidableEq, Repr

namespace ConfigError

/-- The text of an error.  What a reader of YAML or JSON has to say is left out. -/
def message : ConfigError → String
  | unreadable path reason => "Failed to read " ++ path.text ++ ": " ++ reason
  | notYaml path => "Invalid YAML in " ++ path.text
  | notJson path => "Invalid JSON in " ++ path.text
  | emptyName kind => "A " ++ kind.name ++ " name must not be empty"
  | emptySpecifier kind name =>
      "The " ++ kind.name ++ " '" ++ name ++ "' has an empty import specifier"
  | invalidOverride kind value =>
      "Invalid " ++ kind.name ++ " override '" ++ value ++ "', expected NAME=SPECIFIER"

end ConfigError

namespace Config

/-- Refuses a table with a blank name or a blank specifier. -/
def validateTable (kind : ExtensionKind) : Fields String → Except ConfigError Unit
  | [] => .ok ()
  | (name, specifier) :: rest =>
      if Text.isBlankText name then .error (.emptyName kind)
      else if Text.isBlankText specifier then .error (.emptySpecifier kind name)
      else validateTable kind rest

/-- Refuses a configuration with a blank name or a blank specifier. -/
def validate (c : Config) : Except ConfigError Unit :=
  match validateTable .helper c.helpers with
  | .error e => .error e
  | .ok () => validateTable .inclusion c.partials

end Config
end TemplateModules
