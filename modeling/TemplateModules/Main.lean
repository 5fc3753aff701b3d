import TemplateModules.CommandLine.Changes
import TemplateModules.CommandLine.Run

/-!
# The program

The operating system as a host: files are read, listed, and written, and lines are printed.  What is
read and written is decided by the modules of the command line.
-/

namespace TemplateModules
namespace Main

open CommandLine

/-- The failure of a file that the operating system reports. -/
def failureOf : IO.Error → FileError
  | .noFileOrDirectory _ _ _ => .noEntry
  | .alreadyExists _ _ _ => .alreadyThere
  | .inappropriateType _ code _ => if code = 20 then .notDirectory else .isDirectory
  | .invalidArgument _ 36 _ => .nameTooLong
  | e => { kind := .other, message := toString e }

/-- The result of an action, or its failure. -/
def attempt {α : Type} (action : IO α) : IO (Except FileError α) := do
  try return .ok (← action)
  catch e => return .error (failureOf e)

/-- The result of an action on a path, or its failure. -/
def attemptAt {α : Type} (path : FilePath) (action : IO α) : IO (Except FileError α) :=
  match path.fault? with
  | some e => return .error e
  | none => attempt action

/-- The text of a file. -/
def readText (path : FilePath) : IO (Except FileError String) := do
  match ← attemptAt path (IO.FS.readBinFile path.text) with
  | .error e => return .error e
  | .ok bytes => return (FileContents.ofBytes bytes).read

/-- Writes a file and makes the directories on the way to it. -/
def writeText (path : FilePath) (text : String) : IO (Except FileError Unit) := do
  let made ←
    match path.prefixes.tail with
    | [] => pure (.ok ())
    | directory :: _ => attemptAt directory (IO.FS.createDirAll directory.text)
  match made with
  | .error e => return .error e
  | .ok () => attemptAt path (IO.FS.writeFile path.text text)

/-- What lies below a directory. -/
partial def listBelow (path : FilePath) (location : Location) :
    IO (List (Location × EntryKind)) := do
  let directory := (← IO.currentDir) / path.text
  let mut found := []
  for entry in ← directory.readDir do
    let inner := location ++ [entry.fileName]
    if (← entry.path.symlinkMetadata).type == .dir then
      found := (inner, .directory) :: found
      found := found ++ (← listBelow (path.join { text := entry.fileName }) inner)
    else found := (inner, .file) :: found
  return found

/-- The location that a path leads to if no names stand for others. -/
def locationFrom (here : Location) (path : FilePath) : Location :=
  path.components.foldl
    (fun location c =>
      match c with
      | .root => []
      | .current => location
      | .parent => location.dropLast
      | .normal name => location ++ [name])
    here

/-- The directories on the way to a location. -/
def waysTo (location : Location) : List (Location × EntryKind) :=
  (List.range location.length).map fun n => (location.take n, .directory)

/-- What there is at a path and below it, and the directories on the way to it. -/
def listRoot (here : Location) (path : FilePath) : IO (List (Location × EntryKind)) := do
  let place := (← IO.currentDir) / path.text
  let location := locationFrom here path
  if path.fault?.isSome then return []
  else if ← place.isDir then
    return waysTo location ++ (location, .directory) :: (← listBelow path location)
  else if ← place.pathExists then return waysTo location ++ [(location, .file)]
  else return waysTo location

/-- The operating system as a host. -/
def systemHost : IO (Host IO) := do
  let directory : FilePath := { text := (← IO.currentDir).toString }
  let here := locationFrom [] directory
  return {
    directory
    read := readText
    contains := fun path => do
      if path.fault?.isSome then return false
      else return ← ((← IO.currentDir) / path.text).pathExists
    listing := fun roots => do
      let found ← roots.mapM (listRoot here)
      return { entries := waysTo here ++ (here, .directory) :: found.flatten } }

/-- Does what a report says; gives the exit code. -/
def carryOut (r : Report) : IO Nat := do
  let stopped ← perform writeText (fun line => IO.println line) r.actions
  let (complaints, exitCode) := r.ending stopped
  for line in complaints do IO.eprintln line
  return exitCode

/-- How long, in milliseconds, no template may have changed before changes are compiled. -/
def quietTime : Nat := 100

/-- How often, in milliseconds, changes are looked for. -/
def pollTime : UInt32 := 50

/-- The times at which files were last changed, as texts. -/
def changeTimes (files : List FilePath) : IO (List (FilePath × String)) :=
  files.mapM fun path => do
    match ← attempt ((← IO.currentDir) / path.text).metadata with
    | .ok data => return (path, toString (repr data.modified))
    | .error _ => return (path, "")

/-- Compiles templates when they change. -/
partial def watch (h : Host IO) (j : Job) (seen : List (FilePath × String)) (c : Changes) :
    IO Unit := do
  IO.sleep pollTime
  let times ← changeTimes j.files
  let changed := times.filterMap fun (path, time) =>
    if seen.lookup path = some time || time.isEmpty then none else some path
  let c := c.record changed (← IO.monoMsNow)
  let (ready, c) := c.takeReady (← IO.monoMsNow)
  if let some files := ready then
    IO.println "\nTemplate changed, recompiling..."
    discard (carryOut (← j.build h files))
  watch h j times c

/-- Runs the program with arguments. -/
def start (texts : List String) : IO Nat := do
  let h ← systemHost
  match Arguments.parse texts with
  | .error e => carryOut (.usage e)
  | .ok a =>
      if a.watch && !a.init then
        match ← prepare h a with
        | .error e => carryOut (.failed e)
        | .ok job =>
            IO.println "Watching for changes... (Press Ctrl+C to stop)"
            let seen ← changeTimes job.files
            discard (carryOut (← job.build h job.files))
            watch h job seen (.new quietTime)
            return 0
      else carryOut (← reportFor h a)

end Main
end TemplateModules

/-- Runs the program. -/
def main (arguments : List String) : IO UInt32 := do
  return (← TemplateModules.Main.start arguments).toUInt32
