import TemplateModules.Config.Basic
import TemplateModules.Files.Path
import TemplateModules.Text.LowerCase

/-!
# Which files are templates

A file is a template if its name ends in one of the extensions of a configuration, in upper or
lower case.
-/

namespace TemplateModules
namespace Loading

/-- The endings of the names of templates, in lower case. -/
structure Filter where
  suffixes : List (List Char)
  deriving DecidableEq, Repr

namespace Filter

/-- The ending of file names for an extension, which may be given with points in front. -/
def suffix (extension : String) : List Char :=
  '.' :: Text.lower (extension.toList.dropWhile (· = '.'))

def ofExtensions (extensions : List String) : Filter :=
  { suffixes := extensions.map suffix }

/-- Whether a text ends in another one. -/
def endsWith (cs ending : List Char) : Bool :=
  ending.reverse.isPrefixOf cs.reverse

/-- Whether a path is one of a template. -/
def accepts (f : Filter) (path : FilePath) : Bool :=
  match path.fileName? with
  | none => false
  | some name => f.suffixes.any (endsWith (Text.lower name.toList))

end Filter
end Loading

/-- The filter for the templates of a configuration. -/
def Config.filter (c : Config) : Loading.Filter :=
  .ofExtensions c.extensions

end TemplateModules
