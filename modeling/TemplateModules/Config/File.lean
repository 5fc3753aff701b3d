import TemplateModules.Config.Document
import TemplateModules.Config.Error
import TemplateModules.Config.Written
import TemplateModules.Files.Store
import TemplateModules.Text.LowerCase

/-!
# Files of configurations

A configuration is in JSON if the extension of its file says so, and in YAML otherwise.
-/

namespace TemplateModules
namespace Config

/-- The name of the file that is read if none is named. -/
def fileName : FilePath := { text := "hbsconfig.yaml" }

/-- The file that a new project starts with. -/
def newFile : String :=
  "# hbspack configuration\n\n" ++
  "# Helpers templates may call, mapped to the module that default-exports them.\n" ++
  "helpers: \x7b\x7d\n" ++
  "#  bold: ./helpers/bold.js\n\n" ++
  "# Partials templates may include with \x7b\x7b> name\x7d\x7d.\n" ++
  "partials: \x7b\x7d\n" ++
  "#  footer: ./partials/footer.hbs\n\n" ++
  "# Options forwarded to the template compiler (noEscape, strict, ...).\n" ++
  "compileOptions: \x7b\x7d\n\n" ++
  "runtimeModule: handlebars/runtime\n\n" ++
  "extensions:\n" ++
  "  - hbs\n" ++
  "  - handlebars\n\n" ++
  "inlineSourceMap: false\n"

/-- Whether a path is one of a file in JSON. -/
def isJsonFile (path : FilePath) : Bool :=
  match path.extension? with
  | some extension => Text.lower extension.toList = "json".toList
  | none => false

/-- The configuration that the text of a file stands for. -/
def parseFile (path : FilePath) (text : String) : Except ConfigError Config :=
  if isJsonFile path then
    match ofJsonText? text with
    | some c => .ok c
    | none => .error (.notJson path)
  else
    match ofYamlText? text with
    | some c => .ok c
    | none => .error (.notYaml path)

/-- The configuration of a file, given its text or why it cannot be read. -/
def ofFile (path : FilePath) (text : Except FileError String) : Except ConfigError Config :=
  match text with
  | .error e => .error (.unreadable path e.message)
  | .ok text =>
      match parseFile path text with
      | .error e => .error e
      | .ok c =>
          match c.validate with
          | .error e => .error e
          | .ok () => .ok c

end Config
end TemplateModules
