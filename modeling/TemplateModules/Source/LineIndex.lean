import TemplateModules.Source.Span
import TemplateModules.Text.Bytes

/-!
# Lines and columns of byte offsets

A line index keeps the offsets at which the lines of a source start.  The line of an offset is
found by bisection among them; its column counts the characters from the start of that line.
-/

namespace TemplateModules

/-- The offsets just past each newline of a text that stands at `offset`. -/
def lineStartsFrom (offset : Nat) : List Char → List Nat
  | [] => []
  | c :: cs =>
      let next := offset + c.utf8Size
      if c = '\n' then next :: lineStartsFrom next cs else lineStartsFrom next cs

/-- A source together with the offsets at which its lines start. -/
structure LineIndex where
  source : List Char
  starts : Array Nat
  starts_pos : 0 < starts.size

namespace LineIndex

def ofSource (source : List Char) : LineIndex where
  source := source
  starts := (0 :: lineStartsFrom 0 source).toArray
  starts_pos := by simp

/--
Bisection.  The line sought is `low` or a later one, and before `high`; each round halves the
stretch between them.
-/
def search
    (starts : Array Nat) (offset low high : Nat)
    (hlow : low < high) (hhigh : high ≤ starts.size) : Nat :=
  if hdone : high = low + 1 then low
  else
    let middle := (low + high) / 2
    if starts[middle] ≤ offset then
      search starts offset middle high (by omega) hhigh
    else
      search starts offset low middle (by omega) (by omega)
termination_by high - low

/-- The number of the line of an offset, counted from zero. -/
def lineOf (index : LineIndex) (offset : Nat) : Nat :=
  search index.starts offset 0 index.starts.size index.starts_pos (Nat.le_refl _)

/-- Bisection ends within the bounds it is given. -/
theorem search_lt
    (starts : Array Nat) (offset low high : Nat)
    (hlow : low < high) (hhigh : high ≤ starts.size) :
    search starts offset low high hlow hhigh < high := by
  fun_induction search starts offset low high hlow hhigh with
  | case1 => omega
  | case2 low high _ _ _ _ _ ih => exact ih
  | case3 low high _ _ _ _ _ ih => omega

/-- The line found is a line of the source. -/
theorem lineOf_lt (index : LineIndex) (offset : Nat) :
    index.lineOf offset < index.starts.size :=
  search_lt _ _ _ _ _ _

/--
The line and the column of an offset.  The column is zero for an offset inside a character or
past the end.
-/
def locate (index : LineIndex) (offset : Nat) : Nat × Nat :=
  let line := index.lineOf offset
  have := index.lineOf_lt offset
  let start := index.starts[line]
  (line + 1, ((Text.slice? index.source start offset).map List.length).getD 0)

/-- The span between two offsets. -/
def span (index : LineIndex) (start stop : Nat) : Span :=
  let (line, column) := index.locate start
  let (endLine, endColumn) := index.locate stop
  { start, stop, line, column, endLine, endColumn }

/-- The offset at which a closing part of the source starts. -/
def offsetOf (index : LineIndex) (rest : List Char) : Nat :=
  Text.byteSize index.source - Text.byteSize rest

/-- The span from the start of one closing part of the source to the start of a later one. -/
def between (index : LineIndex) (opening after : List Char) : Span :=
  index.span (index.offsetOf opening) (index.offsetOf after)

end LineIndex
end TemplateModules
