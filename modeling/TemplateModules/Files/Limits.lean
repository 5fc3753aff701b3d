import TemplateModules.Files.Store

/-!
# Limits of names and paths

The operating system refuses some paths whatever files there are: those with a zero character,
those that are too long as a whole, and, once it has come to it, a name that is too long.  Lengths
are counted in bytes.
-/

namespace TemplateModules

/-- The most bytes in a name. -/
def maxNameBytes : Nat := 255

/-- The most bytes in a path. -/
def maxPathBytes : Nat := 4095

/-- Whether a name is too long for any directory. -/
def isLongName (name : String) : Bool :=
  maxNameBytes < name.utf8ByteSize

namespace FilePath

/-- Why a path leads nowhere, whatever files there are. -/
def fault? (path : FilePath) : Option FileError :=
  if path.text.toList.contains '\x00' then some .zeroInName
  else if path.text.isEmpty then some .noEntry
  else if maxPathBytes < path.text.utf8ByteSize then some .nameTooLong
  else none

end FilePath
end TemplateModules
