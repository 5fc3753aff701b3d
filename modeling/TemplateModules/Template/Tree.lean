import TemplateModules.Source.Span
import TemplateModules.Template.Numeral

/-!
# Template trees

A parsed template is a program: statements in the order of the source.  Blocks hold programs of
their own, for their main and for their inverse section.
-/

namespace TemplateModules
namespace Template

/-- A path to a value. -/
structure Path where
  /-- The path starts at the private data of the run and not at the context. -/
  data : Bool
  /-- How many contexts the path goes up before it goes down. -/
  depth : Nat
  /-- The path names the current context explicitly. -/
  anchored : Bool
  /-- The fields that lead down, in order. -/
  parts : List String
  /-- The path as it is written. -/
  text : String
  deriving DecidableEq, Repr

namespace Path

/-- The name of a path that is one field of the current context and nothing else. -/
def simpleName? (path : Path) : Option String :=
  match path with
  | { data := false, depth := 0, anchored := false, parts := [name], .. } => some name
  | _ => none

end Path

/-- A value that is written out. -/
inductive Literal where
  | text (value : String)
  | number (numeral : Numeral)
  | bool (value : Bool)
  | null
  | undefined
  deriving DecidableEq, Repr

mutual

/-- An expression. -/
inductive Expr where
  | path (path : Path)
  | literal (value : Literal)
  /-- A call in parentheses. -/
  | sub (call : Call)

/-- A head with its arguments. -/
structure Call where
  head : Expr
  /-- The positional arguments. -/
  params : List Expr
  /-- The arguments that have names. -/
  hash : List (String × Expr)

end

namespace Call

/-- Whether there is an argument of either kind. -/
def hasArguments (call : Call) : Bool :=
  !call.params.isEmpty || !call.hash.isEmpty

/-- The name of a head that is a bare name. -/
def simpleName? (call : Call) : Option String :=
  match call.head with
  | .path path => path.simpleName?
  | _ => none

end Call

mutual

/-- A sequence of statements, with the names that it gives to the values of its block. -/
structure Program where
  body : List Statement
  blockParams : List String

/-- A unit of a template. -/
inductive Statement where
  | content (text : String)
  | comment (text : String)
  | mustache (call : Call) (escaped : Bool) (span : Span)
  | block (call : Call) (main : Program) (inverse : Option Program) (span : Span)
  | inclusion (name : String) (context : Option Expr) (hash : List (String × Expr)) (span : Span)

end

namespace Program

/-- The program that does nothing. -/
def empty : Program := { body := [], blockParams := [] }

end Program

end Template
end TemplateModules
