import TemplateModules.Template.Tree

/-!
# The code of a template

A compiled template is a tree of sections.  A section is a function that appends to a buffer, one
line for each statement; what a line appends is described here by its meaning, and becomes text
only when the whole template is written out.

The type of lines has a parameter for the sections of a block.  In the tree these are sections;
once the sections are numbered, they are references.
-/

namespace TemplateModules
namespace Spec

open Template

/-- Where an access starts. -/
inductive Root where
  | context
  /-- A context further out. -/
  | parent (depth : Nat)
  /-- The private data of the run. -/
  | data
  /-- A block parameter: how many sections out it is declared, and its place there. -/
  | blockParam (level index : Nat)
  deriving DecidableEq, Repr

/-- The reading of a value: from a root down through fields. -/
structure Access where
  root : Root
  parts : List String
  deriving DecidableEq, Repr

mutual

/-- A value that is computed when the template runs. -/
inductive Value where
  | literal (value : Literal)
  | access (access : Access)
  | call (call : HelperCall)

structure HelperCall where
  name : String
  /-- Without this, a missing helper is replaced when the template runs. -/
  known : Bool
  params : List Value
  hash : List (String × Value)
  /-- The tag of the call. -/
  tag : Span

end

/-- What a mustache shows. -/
inductive Shown where
  | value (value : Value)
  /-- A field that may hold a function. -/
  | lambda (access : Access)
  /-- A helper if there is one of the name when the template runs, and a field otherwise. -/
  | helperOrField (name : String) (access : Access) (tag : Span)

/-- What decides how often the sections of a block run. -/
inductive Opening where
  | helper (call : HelperCall)
  /-- A value: present, absent or a list. -/
  | value (access : Access) (name : String) (tag : Span)
  /-- A helper if there is one of the name when the template runs, and a value otherwise. -/
  | helperOrValue (helper : String) (access : Access) (name : String) (tag : Span)

/-- What one statement appends to the buffer. -/
inductive Line (σ : Type) where
  | text (text : String)
  | mustache (escaped : Bool) (shown : Shown) (tag : Span)
  | block (opening : Opening) (main : σ) (inverse : Option σ) (tag : Span)
  | inclusion (name : String) (context : Option Value) (hash : List (String × Value)) (tag : Span)

namespace Line

/-- The tag of a line, if it is not plain text. -/
def tag? {σ : Type} : Line σ → Option Span
  | text _ => none
  | mustache _ _ tag => some tag
  | block _ _ _ tag => some tag
  | inclusion _ _ _ tag => some tag

end Line

/-- A section of a template: the names of its block parameters, and its lines. -/
inductive Section where
  | mk (blockParams : List String) (lines : List (Line Section))

namespace Section

/-- The names of the block parameters of a section. -/
def blockParams : Section → List String
  | mk names _ => names

def lines : Section → List (Line Section)
  | mk _ lines => lines

end Section
end Spec
end TemplateModules
