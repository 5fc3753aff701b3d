/-!
# Paths of files

Paths are compared component by component.  Repeated and trailing slashes do not count, and
neither do points that stand for the directory itself, unless one starts the path.  A path keeps
the spelling in which it was first written.
-/

namespace TemplateModules

/-- A path as it is written. -/
structure FilePath where
  text : String
  deriving DecidableEq, Repr, Inhabited

namespace FilePath

/-- A step of a path. -/
inductive Component where
  | root
  /-- A point at the start of a path. -/
  | current
  /-- Two points. -/
  | parent
  | normal (name : String)
  deriving DecidableEq, Repr

/-- The parts of a text between its slashes; one more than there are slashes. -/
def splitSlashes : List Char → List (List Char)
  | [] => [[]]
  | c :: cs =>
      if c = '/' then [] :: splitSlashes cs
      else
        match splitSlashes cs with
        | [] => [[c]]
        | part :: parts => (c :: part) :: parts

/-- The parts of a path between its slashes. -/
def parts (path : FilePath) : List (List Char) :=
  splitSlashes path.text.toList

/-- Whether a part between slashes is no step: it is empty, or stands for the directory itself. -/
def isIdle (part : List Char) : Bool :=
  part.isEmpty || part = ['.']

/-- The step that a part between slashes is, if it is one. -/
def step? (part : List Char) : Option Component :=
  if isIdle part then none
  else if part = ['.', '.'] then some .parent
  else some (.normal (String.ofList part))

/-- Whether a path starts at the root. -/
def isAbsolute (path : FilePath) : Bool :=
  path.text.toList.head? = some '/'

def components (path : FilePath) : List Component :=
  let start : List Component :=
    if path.isAbsolute then [.root]
    else if path.parts.head? = some ['.'] then [.current]
    else []
  start ++ path.parts.filterMap step?

/-- Whether two paths have the same components. -/
def same (p q : FilePath) : Bool :=
  p.components = q.components

namespace Component

/-- The rank of a component among those of other kinds. -/
def rank : Component → Nat
  | root => 0
  | current => 1
  | parent => 2
  | normal _ => 3

/-- The order of components: by kind, and by the code points of their names. -/
def compare (a b : Component) : Ordering :=
  match a, b with
  | normal x, normal y => Ord.compare x y
  | a, b => Ord.compare a.rank b.rank

end Component

/-- The order of lists of components: the first difference decides, and a shorter list is first. -/
def compareComponents : List Component → List Component → Ordering
  | [], [] => .eq
  | [], _ :: _ => .lt
  | _ :: _, [] => .gt
  | a :: as, b :: bs => (a.compare b).then (compareComponents as bs)

/-- The order of paths. -/
def compare (p q : FilePath) : Ordering :=
  compareComponents p.components q.components

/-- The name of the last component, if it is one with a name. -/
def fileName? (path : FilePath) : Option String :=
  match path.components.getLast? with
  | some (.normal name) => some name
  | _ => none

/-- A file name without and with what follows its last point.  A point at the start is no end. -/
def splitExtension (name : List Char) : List Char × Option (List Char) :=
  let (after, before) := name.reverse.span (· ≠ '.')
  match before with
  | _ :: stem => if stem.isEmpty then (name, none) else (stem.reverse, some after.reverse)
  | [] => (name, none)

/-- What follows the last point of the file name. -/
def extension? (path : FilePath) : Option String :=
  path.fileName?.bind fun name => (splitExtension name.toList).2.map String.ofList

/-- Drops the parts at the end that are no steps. -/
def dropIdleEnd (parts : List (List Char)) : List (List Char) :=
  (parts.reverse.dropWhile isIdle).reverse

/-- The parts of a path with slashes between them. -/
def joinParts (parts : List (List Char)) : String :=
  String.ofList (['/'].intercalate parts)

/-- The path as far as each of its steps but the root: first the path itself, then shorter ones. -/
def prefixes (path : FilePath) : List FilePath :=
  let parts := dropIdleEnd path.parts
  let cuts := (List.range parts.length).reverse.map fun n => parts.take (n + 1)
  (cuts.filter fun cut => (cut.getLast?.bind step?).isSome).map fun cut =>
    { text := joinParts cut }

/-- The path with another extension on its file name, if it has one. -/
def withExtension (path : FilePath) (extension : String) : FilePath :=
  match path.fileName? with
  | none => path
  | some name =>
      let stem := (splitExtension name.toList).1
      { text := joinParts ((dropIdleEnd path.parts).dropLast ++ [stem]) ++ "." ++ extension }

/-- A path taken from a directory.  An absolute path does not depend on the directory. -/
def join (directory path : FilePath) : FilePath :=
  if path.isAbsolute || directory.text.isEmpty then path
  else if directory.text.toList.getLast? = some '/' then { text := directory.text ++ path.text }
  else { text := directory.text ++ "/" ++ path.text }

def Component.text : Component → String
  | root => "/"
  | current => "."
  | parent => ".."
  | normal name => name

/-- The components after the root or after a point at the start. -/
def steps (path : FilePath) : List Component :=
  path.components.filter fun c => c ≠ .root && c ≠ .current

def endsInSlash (path : FilePath) : Bool :=
  path.text.toList.getLast? = some '/'

/-- The start of an absolute path: two slashes are kept, more are not. -/
def rootOf (path : FilePath) : FilePath :=
  match path.text.toList with
  | '/' :: '/' :: '/' :: _ => { text := "/" }
  | '/' :: '/' :: _ => { text := "//" }
  | _ => { text := "/" }

/--
A path that does not depend on the directory.  Components are written with single slashes between
them, and a slash at the end is kept.
-/
def absolute (path directory : FilePath) : FilePath :=
  let start := if path.isAbsolute then path.rootOf else directory
  let full := path.steps.foldl (fun p c => p.join { text := c.text }) start
  if path.endsInSlash && !full.endsInSlash then { text := full.text ++ "/" } else full

/-- The file name as a path, which is empty if there is none. -/
def fileNamePath (path : FilePath) : FilePath :=
  { text := path.fileName?.getD "" }

/-- The path of names that are reached from a directory. -/
def below (directory : FilePath) (names : List String) : FilePath :=
  names.foldl (fun p name => p.join { text := name }) directory

/-- The path of names that start in no directory. -/
def ofNames (names : List String) : FilePath :=
  { text := "/".intercalate names }

end FilePath
end TemplateModules
