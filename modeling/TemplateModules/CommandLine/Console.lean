import TemplateModules.CommandLine.Run

/-!
# Runs on a disk in memory

A run changes a disk and prints lines.  Nothing else of its surroundings takes part.
-/

namespace TemplateModules
namespace CommandLine

/-- A disk with the lines that have been printed. -/
structure Console where
  disk : Disk
  lines : List String

namespace Console

/-- Writes a file of the disk. -/
def write (here : Location) (path : FilePath) (text : String) :
    StateM Console (Except FileError Unit) := fun c =>
  match c.disk.write here path (.text text) with
  | .error e => (.error e, c)
  | .ok disk => (.ok (), { c with disk })

def print (line : String) : StateM Console Unit := fun c =>
  ((), { c with lines := c.lines ++ [line] })

end Console

/-- What has become of a run. -/
structure Finished where
  exitCode : Nat
  /-- The lines that were printed. -/
  lines : List String
  complaints : List String
  disk : Disk

/-- The location of a directory whose path consists of names only. -/
def locationOf (directory : FilePath) : Location :=
  directory.steps.map FilePath.Component.text

/-- A disk as a host, with a working directory. -/
def diskHost (disk : Disk) (directory : FilePath) : Host Id where
  directory := directory
  read path := disk.read (locationOf directory) path
  contains path := disk.listing.contains (locationOf directory) path
  listing _ := disk.listing

/-- Runs the program on a disk. -/
def run (disk : Disk) (directory : FilePath) (texts : List String) : Finished :=
  let r : Report := Id.run (report (diskHost disk directory) texts)
  let here := locationOf directory
  let (stopped, console) :=
    (perform (Console.write here) Console.print r.actions).run { disk, lines := [] }
  let (complaints, exitCode) := r.ending stopped
  { exitCode, lines := console.lines, complaints, disk := console.disk }

end CommandLine
end TemplateModules
