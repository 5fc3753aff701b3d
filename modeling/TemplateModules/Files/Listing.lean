import TemplateModules.Files.Limits

/-!
# Listings of directories

A listing says which files and directories there are.  Each has a location: the names on the way to
it from the root.  A path leads to a location step by step; every step but the last one must lead to
a directory, and so must the last one of a path that ends in a slash.
-/

namespace TemplateModules

/-- The names on the way from the root. -/
abbrev Location := List String

/-- What there can be in a location. -/
inductive EntryKind where
  | file
  | directory
  deriving DecidableEq, Repr

/-- Files and directories with their locations. -/
structure Listing where
  entries : List (Location × EntryKind)
  deriving Repr, Inhabited

namespace Listing

/-- What there is in a location.  The root is always there. -/
def kind? (l : Listing) (location : Location) : Option EntryKind :=
  if location.isEmpty then some .directory else l.entries.lookup location

/-- The location that components lead to from a directory. -/
def enter (l : Listing) (here : Location) : List FilePath.Component → Except FileError Location
  | [] => .ok here
  | .root :: rest => l.enter [] rest
  | .current :: rest => l.enter here rest
  | .parent :: rest => l.enter here.dropLast rest
  | [.normal name] => if isLongName name then .error .nameTooLong else .ok (here ++ [name])
  | .normal name :: rest =>
      if isLongName name then .error .nameTooLong
      else
        match l.kind? (here ++ [name]) with
        | some .directory => l.enter (here ++ [name]) rest
        | some .file => .error .notDirectory
        | none => .error .noEntry

/-- The location of a path.  There need not be anything in it. -/
def reach (l : Listing) (here : Location) (path : FilePath) : Except FileError Location :=
  match path.fault? with
  | some e => .error e
  | none => l.enter here path.components

/-- The location of a path, and what there is. -/
def find (l : Listing) (here : Location) (path : FilePath) :
    Except FileError (Location × EntryKind) :=
  match l.reach here path with
  | .error e => .error e
  | .ok location =>
      match l.kind? location with
      | none => .error .noEntry
      | some .directory => .ok (location, .directory)
      | some .file =>
          if (path.parts.getLast?.map FilePath.isIdle).getD false then .error .notDirectory
          else .ok (location, .file)

/-- Whether a path leads to something. -/
def contains (l : Listing) (here : Location) (path : FilePath) : Bool :=
  match l.find here path with
  | .ok _ => true
  | .error _ => false

/-- The location of the directory that a path leads to. -/
def directory? (l : Listing) (here : Location) (path : FilePath) : Option Location :=
  match l.find here path with
  | .ok (location, .directory) => some location
  | _ => none

/-- Whether a path leads to a file. -/
def hasFile (l : Listing) (here : Location) (path : FilePath) : Bool :=
  match l.find here path with
  | .ok (_, .file) => true
  | _ => false

/-- What follows a location in one that lies below it. -/
def namesBelow? : Location → Location → Option (List String)
  | [], [] => none
  | [], name :: names => some (name :: names)
  | _ :: _, [] => none
  | a :: directory, b :: location => if a = b then namesBelow? directory location else none

/-- The names that lead from a directory to what lies below it. -/
def below (l : Listing) (directory : Location) : List (List String × EntryKind) :=
  l.entries.filterMap fun (location, kind) =>
    (namesBelow? directory location).map fun names => (names, kind)

/--
The names that lead from a directory to what is found below it.  A directory whose own path is too
long is found but not looked into.
-/
def openBelow (l : Listing) (path : FilePath) (directory : Location) :
    List (List String × EntryKind) :=
  (l.below directory).filter fun (names, _) =>
    names.length = 1 || (path.below names.dropLast).fault?.isNone

/-- The names of what lies in a directory. -/
def names (l : Listing) (directory : Location) : List String :=
  (l.below directory).filterMap fun (names, _) =>
    match names with
    | [name] => some name
    | _ => none

end Listing
end TemplateModules
