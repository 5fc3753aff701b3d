import TemplateModules.CommandLine.Arguments
import TemplateModules.Files.Pattern
import TemplateModules.Loading.Filter

/-!
# The inputs of a run

Inputs are the files that are named, the templates below the directories that are named, and the
templates that patterns stand for.  Each input has a path that does not depend on the working
directory, and a path relative to where it was found: a template below a directory keeps the names
on the way to it.  Inputs are in the order of their paths, and each path comes once.
-/

namespace TemplateModules
namespace CommandLine

/-- A file to compile. -/
structure Input where
  path : FilePath
  /-- The path below the directory that was named. -/
  relative : FilePath
  deriving DecidableEq, Repr

namespace Input

/-- The order of inputs is that of their paths. -/
def le (a b : Input) : Bool :=
  a.path.compare b.path ≠ .gt

/-- Drops inputs with the same path as the one before. -/
def dropRepeats : List Input → List Input
  | [] => []
  | a :: rest =>
      match dropRepeats rest with
      | [] => [a]
      | b :: rest => if a.path.same b.path then a :: rest else a :: b :: rest

/-- Inputs in order, and of those with one path the first. -/
def arrange (inputs : List Input) : List Input :=
  dropRepeats (inputs.mergeSort le)

/-- A file that is named on its own. -/
def ofFile (directory path : FilePath) : Input :=
  { path := path.absolute directory, relative := path.fileNamePath }

end Input

/-- What is known of the files when inputs are collected. -/
structure Surroundings where
  /-- The working directory. -/
  directory : FilePath
  listing : Listing
  deriving Repr

namespace Surroundings

/-- The location of the working directory. -/
def here (s : Surroundings) : Location :=
  match s.listing.enter [] s.directory.components with
  | .ok location => location
  | .error _ => []

/-- The templates below a directory. -/
def templatesBelow (s : Surroundings) (filter : Loading.Filter) (path : FilePath)
    (location : Location) : List Input :=
  (s.listing.openBelow path location).filterMap fun (names, kind) =>
    let found := path.below names
    if kind = .file ∧ filter.accepts found then
      some { path := found.absolute s.directory, relative := .ofNames names }
    else none

/-- The inputs that a path on the command line stands for. -/
def inputsOf (s : Surroundings) (filter : Loading.Filter) (path : FilePath) : List Input :=
  match s.listing.directory? s.here path with
  | some location => s.templatesBelow filter path location
  | none => [.ofFile s.directory path]

/-- The templates that a pattern stands for. -/
def templatesOf (s : Surroundings) (filter : Loading.Filter) (pattern : PathPattern) :
    List Input :=
  (pattern.expand s.listing s.here).filterMap fun path =>
    if s.listing.hasFile s.here path && filter.accepts path then
      some (.ofFile s.directory path)
    else none

end Surroundings

/-- A pattern that is refused. -/
structure InvalidPattern where
  text : String
  error : PatternError
  deriving DecidableEq, Repr

/-- The patterns that texts stand for. -/
def readPatterns : List String → Except InvalidPattern (List PathPattern)
  | [] => .ok []
  | text :: texts =>
      match PathPattern.read text with
      | .error error => .error { text, error }
      | .ok pattern => (readPatterns texts).map (pattern :: ·)

/-- The inputs of a run. -/
def collectInputs (a : Arguments) (filter : Loading.Filter) (s : Surroundings) :
    Except InvalidPattern (List Input) :=
  (readPatterns a.patterns).map fun patterns =>
    Input.arrange
      (a.inputs.flatMap (s.inputsOf filter) ++ patterns.flatMap (s.templatesOf filter))

/-- The text up to the first character that a pattern gives a meaning. -/
def literalStart (parts : List Pattern) : List String × List Pattern :=
  match parts with
  | [] => ([], [])
  | part :: rest =>
      match part.literal? with
      | some name =>
          let (names, rest) := literalStart rest
          (name :: names, rest)
      | none => ([], part :: rest)

/-- The places that a pattern looks at lie below this path. -/
def patternRoot (p : PathPattern) : FilePath :=
  let (names, rest) := literalStart p.parts
  let ups := (rest.filter fun part => part.literal? = some "..").map fun _ => ".."
  let start : FilePath := { text := if p.absolute then "/" else "." }
  start.below (names ++ ups)

/-- The paths below which a run has to know the files. -/
def Arguments.roots (a : Arguments) : List FilePath :=
  match readPatterns a.patterns with
  | .ok patterns => a.inputs ++ patterns.map patternRoot
  | .error _ => a.inputs

end CommandLine
end TemplateModules
