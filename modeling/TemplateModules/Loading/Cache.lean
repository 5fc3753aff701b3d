import TemplateModules.Files.Store

/-!
# The cache of modules

The cache keeps the text of a module together with the time at which the template was about to be
read.  An entry is fresh as long as the template was not changed after that time.
-/

namespace TemplateModules
namespace Loading

/-- A module with the time from which its template was read. -/
structure CacheEntry where
  contents : String
  timestamp : Time
  deriving DecidableEq, Repr

namespace CacheEntry

/-- Whether an entry is fresh, given the time of the last change if it can be read. -/
def isFresh (entry : CacheEntry) (modified : Option Time) : Bool :=
  match modified with
  | some time => time ≤ entry.timestamp
  | none => false

end CacheEntry

/-- The modules that are kept, and counts of what happened to lookups. -/
structure Cache where
  entries : PathMap CacheEntry
  hits : Nat
  misses : Nat
  invalidations : Nat
  deriving Repr

namespace Cache

/-- The cache without entries. -/
def empty : Cache :=
  { entries := .empty, hits := 0, misses := 0, invalidations := 0 }

instance : Inhabited Cache := ⟨empty⟩

/-- The entry of a path. -/
def lookup (c : Cache) (path : FilePath) : Option CacheEntry :=
  c.entries.get? path

/-- Keeps a module. -/
def insert (c : Cache) (path : FilePath) (contents : String) (timestamp : Time) : Cache :=
  { c with entries := c.entries.insert path { contents, timestamp } }

/-- Takes the entry of a path away. -/
def erase (c : Cache) (path : FilePath) : Cache :=
  { c with entries := c.entries.erase path }

/-- Takes all entries away. -/
def clear (c : Cache) : Cache :=
  { c with entries := .empty }

/-- Counts a lookup that found a fresh entry. -/
def countHit (c : Cache) : Cache :=
  { c with hits := c.hits + 1 }

/-- Counts a lookup that found nothing. -/
def countMiss (c : Cache) : Cache :=
  { c with misses := c.misses + 1 }

/-- Counts an entry that is taken away because it is not fresh. -/
def countInvalidation (c : Cache) : Cache :=
  { c with invalidations := c.invalidations + 1 }

/-- The number of entries. -/
def size (c : Cache) : Nat :=
  c.entries.size

end Cache
end Loading
end TemplateModules
