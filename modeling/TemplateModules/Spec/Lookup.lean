import TemplateModules.Template.Error

/-!
# Lookups

Compiling a template reports every name that it resolves, in the order in which it does so.  The
reports made before an error are kept.
-/

namespace TemplateModules
namespace Spec

open Template

/-- What a resolved name stands for. -/
inductive LookupKind where
  /-- A helper that is called. -/
  | helper
  /-- A partial that is included. -/
  | inclusion
  /-- The first field of a path from the context. -/
  | context
  /-- The first field of a path from the private data of a run. -/
  | data
  deriving DecidableEq, Repr

/-- A name that compilation resolves. -/
structure Lookup where
  name : String
  kind : LookupKind
  /-- The tag that the name stands in. -/
  tag : Span
  deriving DecidableEq, Repr

/-- A result together with the lookups on the way to it. -/
structure Reporting (α : Type) where
  lookups : List Lookup
  result : Except Error α

namespace Reporting

/-- A result without lookups. -/
protected def pure {α : Type} (a : α) : Reporting α :=
  { lookups := [], result := .ok a }

/-- Goes on with a result, unless it is an error. -/
protected def bind {α β : Type} (x : Reporting α) (f : α → Reporting β) : Reporting β :=
  match x.result with
  | .error e => { lookups := x.lookups, result := .error e }
  | .ok a =>
      let y := f a
      { lookups := x.lookups ++ y.lookups, result := y.result }

instance : Monad Reporting where
  pure := Reporting.pure
  bind := Reporting.bind

/-- Reports one name. -/
def report (name : String) (kind : LookupKind) (tag : Span) : Reporting Unit :=
  { lookups := [{ name, kind, tag }], result := .ok () }

/-- Ends with an error. -/
def fail {α : Type} (cause : Cause) (span : Span) : Reporting α :=
  { lookups := [], result := .error { cause, span } }

end Reporting
end Spec
end TemplateModules
