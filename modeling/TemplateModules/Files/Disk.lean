import TemplateModules.Files.Listing

/-!
# A disk

A disk holds directories and files.  Directories are made before what lies in them, and a file is
written as a whole.
-/

namespace TemplateModules

inductive FileContents where
  | text (s : String)
  /-- Bytes that are no text. -/
  | bytes (bs : ByteArray)

namespace FileContents

def ofBytes (bs : ByteArray) : FileContents :=
  match String.fromUTF8? bs with
  | some s => text s
  | none => bytes bs

/-- The text of a file. -/
def read : FileContents → Except FileError String
  | text s => .ok s
  | bytes _ => .error .notText

end FileContents

/-- Directories and files with their locations. -/
structure Disk where
  directories : List Location
  files : List (Location × FileContents)

namespace Disk

def empty : Disk := { directories := [], files := [] }

instance : Inhabited Disk := ⟨empty⟩

def listing (d : Disk) : Listing where
  entries :=
    d.directories.map (fun location => (location, .directory)) ++
      d.files.map (fun file => (file.1, .file))

/-- The text of the file that a path leads to. -/
def read (d : Disk) (here : Location) (path : FilePath) : Except FileError String :=
  match d.listing.find here path with
  | .error e => .error e
  | .ok (_, .directory) => .error .isDirectory
  | .ok (location, .file) =>
      match d.files.lookup location with
      | some contents => contents.read
      | none => .error .noEntry

/-- Gives a location contents in a list of files. -/
def putFile (location : Location) (contents : FileContents) :
    List (Location × FileContents) → List (Location × FileContents)
  | [] => [(location, contents)]
  | file :: files =>
      if file.1 = location then (location, contents) :: files
      else file :: putFile location contents files

/-- Gives a location contents. -/
def put (d : Disk) (location : Location) (contents : FileContents) : Disk :=
  { d with files := putFile location contents d.files }

/-- Makes the directory of a path. -/
def makeDirectory (d : Disk) (here : Location) (path : FilePath) : Except FileError Disk :=
  match d.listing.reach here path with
  | .error e => .error e
  | .ok location =>
      match d.listing.kind? location with
      | some _ => .error .alreadyThere
      | none => .ok { d with directories := d.directories ++ [location] }

/-- Makes a directory, which is no error if it is there. -/
def ensureDirectory (d : Disk) (here : Location) (path : FilePath) : Except FileError Disk :=
  match d.makeDirectory here path with
  | .ok d => .ok d
  | .error e => if (d.listing.directory? here path).isSome then .ok d else .error e

/-- Makes the first of some directories.  The others are those on the way to it, nearest first. -/
def ensureDirectories (d : Disk) (here : Location) : List FilePath → Except FileError Disk
  | [] => .ok d
  | path :: outer =>
      match d.ensureDirectory here path with
      | .ok d => .ok d
      | .error e =>
          if e.kind = .notFound then
            match ensureDirectories d here outer with
            | .error e => .error e
            | .ok d => d.ensureDirectory here path
          else .error e

/-- Writes the file that a path leads to.  The directories on the way to it must be there. -/
def store (d : Disk) (here : Location) (path : FilePath) (contents : FileContents) :
    Except FileError Disk :=
  match d.listing.reach here path with
  | .error e => .error e
  | .ok location =>
      match d.listing.kind? location, d.listing.kind? location.dropLast with
      | some .directory, _ => .error .isDirectory
      | _, some .directory => .ok (d.put location contents)
      | _, some .file => .error .notDirectory
      | _, none => .error .noEntry

/-- Writes the file that a path leads to, and makes the directories on the way to it. -/
def write (d : Disk) (here : Location) (path : FilePath) (contents : FileContents) :
    Except FileError Disk :=
  match d.ensureDirectories here path.prefixes.tail with
  | .error e => .error e
  | .ok d => d.store here path contents

end Disk
end TemplateModules
