import TemplateModules.Files.Path

/-!
# Changed files

While files change, their paths are collected.  They are handed out together once no change has
been recorded for a while.
-/

namespace TemplateModules
namespace CommandLine

/-- Paths in their order, each once. -/
def insertPath (path : FilePath) : List FilePath → List FilePath
  | [] => [path]
  | p :: ps =>
      match path.compare p with
      | .lt => path :: p :: ps
      | .eq => p :: ps
      | .gt => p :: insertPath path ps

/-- Changes that have not been handed out.  Times are in milliseconds. -/
structure Changes where
  /-- How long nothing must have been recorded. -/
  quiet : Nat
  pending : List FilePath
  /-- When the last change was recorded. -/
  lastEvent : Option Nat
  deriving DecidableEq, Repr

namespace Changes

def new (quiet : Nat) : Changes := { quiet, pending := [], lastEvent := none }

/-- Records the paths of an event at a time.  An event without paths changes nothing. -/
def record (c : Changes) (paths : List FilePath) (now : Nat) : Changes :=
  if paths.isEmpty then c
  else
    { c with
      pending := paths.foldl (fun pending path => insertPath path pending) c.pending
      lastEvent := some now }

/-- Hands out the changes at a time, if it is time. -/
def takeReady (c : Changes) (now : Nat) : Option (List FilePath) × Changes :=
  match c.lastEvent with
  | none => (none, c)
  | some last =>
      if c.pending.isEmpty ∨ now - last < c.quiet then (none, c)
      else (some c.pending, { c with pending := [], lastEvent := none })

end Changes
end CommandLine
end TemplateModules
