import TemplateModules.Files.Path

/-!
# Maps from paths

A map from paths holds one value for all spellings of a path.
-/

namespace TemplateModules

/-- Values of paths, in the order in which the paths came. -/
structure PathMap (α : Type) where
  entries : List (FilePath × α)
  deriving Repr

namespace PathMap

variable {α : Type}

/-- The map without values. -/
def empty : PathMap α := { entries := [] }

instance : Inhabited (PathMap α) := ⟨empty⟩

/-- The value of a path in a list of pairs. -/
def find? (path : FilePath) : List (FilePath × α) → Option α
  | [] => none
  | (p, a) :: rest => if p.same path then some a else find? path rest

/-- The value of a path. -/
def get? (m : PathMap α) (path : FilePath) : Option α :=
  find? path m.entries

/-- Whether a path has a value. -/
def contains (m : PathMap α) (path : FilePath) : Bool :=
  (m.get? path).isSome

/-- Gives a path a value in a list of pairs. -/
def put (path : FilePath) (a : α) : List (FilePath × α) → List (FilePath × α)
  | [] => [(path, a)]
  | (p, b) :: rest => if p.same path then (p, a) :: rest else (p, b) :: put path a rest

/-- Gives a path a value. -/
def insert (m : PathMap α) (path : FilePath) (a : α) : PathMap α :=
  { entries := put path a m.entries }

/-- Takes the value of a path away. -/
def erase (m : PathMap α) (path : FilePath) : PathMap α :=
  { entries := m.entries.filter fun (p, _) => !p.same path }

/-- Changes the value of a path, if it has one. -/
def modify (m : PathMap α) (path : FilePath) (f : α → α) : PathMap α :=
  { entries := m.entries.map fun (p, a) => if p.same path then (p, f a) else (p, a) }

/-- The number of paths that have values. -/
def size (m : PathMap α) : Nat :=
  m.entries.length

/-- The paths with their values, in the order of the paths. -/
def sorted (m : PathMap α) : List (FilePath × α) :=
  m.entries.mergeSort fun a b => a.1.compare b.1 ≠ .gt

end PathMap
end TemplateModules
