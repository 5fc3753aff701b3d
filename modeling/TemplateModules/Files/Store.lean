import TemplateModules.Files.Map

/-!
# A store of files

Files are kept in memory, with the times at which they were last changed.
-/

namespace TemplateModules

/-- A moment: microseconds since the start of 1970. -/
abbrev Time := Int

namespace Time

/-- A number of seconds. -/
def seconds (n : Int) : Time := n * 1000000

end Time

/-- The kinds of failures of files. -/
inductive FileErrorKind where
  | notFound
  | invalidData
  | other
  deriving DecidableEq, Repr

/-- A failure of a file. -/
structure FileError where
  kind : FileErrorKind
  message : String
  deriving DecidableEq, Repr

namespace FileError

/-- There is no file of this path. -/
def missing (path : FilePath) : FileError :=
  { kind := .notFound, message := "File not found: " ++ path.text }

/-- The operating system finds no file of a path. -/
def noEntry : FileError :=
  { kind := .notFound, message := "No such file or directory (os error 2)" }

/-- There is something where a directory is to be made. -/
def alreadyThere : FileError :=
  { kind := .other, message := "File exists (os error 17)" }

/-- A file is used as a directory. -/
def notDirectory : FileError :=
  { kind := .other, message := "Not a directory (os error 20)" }

/-- A directory is used as a file. -/
def isDirectory : FileError :=
  { kind := .other, message := "Is a directory (os error 21)" }

/-- A name or a path has too many bytes. -/
def nameTooLong : FileError :=
  { kind := .other, message := "File name too long (os error 36)" }

/-- There is a zero character in a path. -/
def zeroInName : FileError :=
  { kind := .other, message := "file name contained an unexpected NUL byte" }

/-- The bytes of a file are no text. -/
def notText : FileError :=
  { kind := .invalidData, message := "stream did not contain valid UTF-8" }

end FileError

structure File where
  contents : String
  modified : Time
  deriving DecidableEq, Repr

structure Store where
  files : PathMap File
  deriving Repr, Inhabited

namespace Store

def empty : Store := { files := .empty }

/-- The time of files that are added without one, far in the past. -/
def pastTime : Time := .seconds 1000000

/-- How far in the future the time of a touched file lies. -/
def touchDelay : Time := .seconds 3600

/-- The contents of a file. -/
def read (s : Store) (path : FilePath) : Except FileError String :=
  match s.files.get? path with
  | some file => .ok file.contents
  | none => .error (.missing path)

/-- The time at which a file was last changed, if there is a file. -/
def modified? (s : Store) (path : FilePath) : Option Time :=
  (s.files.get? path).map File.modified

def contains (s : Store) (path : FilePath) : Bool :=
  s.files.contains path

/-- Adds a file with a time far in the past. -/
def add (s : Store) (path : FilePath) (contents : String) : Store :=
  { files := s.files.insert path { contents, modified := pastTime } }

def write (s : Store) (path : FilePath) (contents : String) (now : Time) : Store :=
  { files := s.files.insert path { contents, modified := now } }

/-- Changes the contents of a file but not its time. -/
def setContents (s : Store) (path : FilePath) (contents : String) : Store :=
  { files := s.files.modify path fun file => { file with contents } }

/-- Changes the time of a file. -/
def setModified (s : Store) (path : FilePath) (modified : Time) : Store :=
  { files := s.files.modify path fun file => { file with modified } }

def remove (s : Store) (path : FilePath) : Store :=
  { files := s.files.erase path }

end Store
end TemplateModules
