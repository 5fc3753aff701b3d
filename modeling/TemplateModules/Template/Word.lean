import TemplateModules.Template.Error
import TemplateModules.Template.Tree
import TemplateModules.Text.Cut

/-!
# Words as expressions

A word where an expression is expected is one of four keywords, a numeral, or a path.
-/

namespace TemplateModules
namespace Template

open Text

/-- How many contexts a path goes up, and what follows these steps. -/
def parents : List Char → Nat × List Char
  | ['.', '.'] => (1, [])
  | '.' :: '.' :: '/' :: cs =>
      let (depth, rest) := parents cs
      (depth + 1, rest)
  | cs => (0, cs)

/-- The keyword of the current context. -/
def thisWord : List Char := ['t', 'h', 'i', 's']

/-- Whether a path names the current context, and what follows it. -/
def current (cs : List Char) : Bool × List Char :=
  if cs = thisWord ∨ cs = ['.'] then (true, [])
  else
    match after? (thisWord ++ ['.']) cs, after? (thisWord ++ ['/']) cs, after? ['.', '/'] cs with
    | some rest, _, _ => (true, rest)
    | none, some rest, _ => (true, rest)
    | none, none, some rest => (true, rest)
    | none, none, none => (false, cs)

/--
The segments of a path, between points and slashes.  A segment that starts with a bracket runs up
to the closing bracket; only such a segment may be empty.  The arguments before the text are the
segment so far in reverse, whether it had brackets, and whether one is open.
-/
def segments : List Char → Bool → Bool → List Char → Option (List (List Char))
  | segment, bracketed, _, [] =>
      if segment.isEmpty && !bracketed then none else some [segment.reverse]
  | segment, bracketed, true, c :: cs =>
      if c = ']' then segments segment bracketed false cs
      else segments (c :: segment) bracketed true cs
  | segment, bracketed, false, c :: cs =>
      if c = '[' ∧ segment.isEmpty then segments segment true true cs
      else if c = '.' ∨ c = '/' then
        if segment.isEmpty && !bracketed then none
        else (segments [] false false cs).map (segment.reverse :: ·)
      else segments (c :: segment) bracketed false cs

/-- Whether a segment is one of the words that stand for a context. -/
def isReserved (segment : List Char) : Bool :=
  segment = ['.', '.'] || segment = thisWord || segment = ['.']

def Path.ofWord? (word : String) : Option Path :=
  let (data, rest) : Bool × List Char :=
    match word.toList with
    | '@' :: rest => (true, rest)
    | rest => (false, rest)
  let (depth, rest) := parents rest
  let (anchored, rest) := current rest
  match if rest.isEmpty then some [] else segments [] false false rest with
  | none => none
  | some parts =>
      if parts.any isReserved || (data && parts.isEmpty) then none
      else some { data, depth, anchored, parts := parts.map String.ofList, text := word }

/-- The expression that a word is. -/
def Expr.ofWord (word : String) : Except Malformed Expr :=
  if word = "true" then .ok (.literal (.bool true))
  else if word = "false" then .ok (.literal (.bool false))
  else if word = "null" then .ok (.literal .null)
  else if word = "undefined" then .ok (.literal .undefined)
  else if h : isNumber word.toList = true then .ok (.literal (.number ⟨word, h⟩))
  else
    match Path.ofWord? word with
    | some found => .ok (.path found)
    | none => .error (.invalidPath word)

end Template
end TemplateModules
