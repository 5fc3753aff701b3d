import TemplateModules.Files.Path

/-!
# Diagnostics

A diagnostic is an error that belongs to a file.  Diagnostics are kept in the order in which they
are reported.
-/

namespace TemplateModules
namespace Loading

/-- An error of a file. -/
structure Diagnostic where
  path : FilePath
  text : String
  deriving DecidableEq, Repr

namespace Diagnostic

def line (d : Diagnostic) : String :=
  "error [" ++ d.path.text ++ "]: " ++ d.text

end Diagnostic

/-- The diagnostics that have been reported. -/
structure Diagnostics where
  reported : List Diagnostic
  deriving DecidableEq, Repr, Inhabited

namespace Diagnostics

def none : Diagnostics := { reported := [] }

def report (ds : Diagnostics) (d : Diagnostic) : Diagnostics :=
  { reported := ds.reported ++ [d] }

/-- Reports diagnostics one after another. -/
def reportAll (ds : Diagnostics) (found : List Diagnostic) : Diagnostics :=
  found.foldl report ds

/-- The number of errors. -/
def errorCount (ds : Diagnostics) : Nat :=
  ds.reported.length

def hasErrors (ds : Diagnostics) : Bool :=
  0 < ds.errorCount

end Diagnostics
end Loading
end TemplateModules
