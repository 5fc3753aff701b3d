/-!
# Spans

A span is a stretch of a template source: two byte offsets, and the line and column of each.
-/

namespace TemplateModules

/-- A stretch of a source.  Offsets count bytes, lines from one, columns characters from zero. -/
structure Span where
  /-- The offset of the first byte. -/
  start : Nat
  /-- The offset just past the last byte. -/
  stop : Nat
  line : Nat
  column : Nat
  endLine : Nat
  endColumn : Nat
  deriving DecidableEq, Repr, Inhabited

namespace Span

/-- The span of a text that has no source. -/
def unplaced : Span :=
  { start := 0, stop := 0, line := 1, column := 0, endLine := 1, endColumn := 0 }

/-- The place where a span starts, as error messages give it. -/
def place (span : Span) : String :=
  toString span.line ++ ":" ++ toString span.column

end Span
end TemplateModules
