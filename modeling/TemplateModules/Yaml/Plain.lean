import TemplateModules.Yaml.Quoted

/-!
# Plain scalars

A plain scalar ends where a colon stands before a gap, where a comment starts, where a line is not
indented enough, or, between brackets, at a comma or a bracket.
-/

namespace TemplateModules
namespace Yaml

/-- Whether a character ends plain scalars between brackets. -/
def isFlowMark (c : Char) : Bool :=
  c = ',' || c = '[' || c = ']' || c = '\x7b' || c = '\x7d'

/-- Whether a text starts with a character that may not follow a colon between brackets. -/
def startsColonTrap : List Char → Bool
  | c :: _ => c = '?' || isFlowMark c
  | [] => false

/-- Reads the characters of a plain scalar up to the next gap or to its end. -/
def readPlainWord (flow : Bool) : List Char → Option (List Char × List Char)
  | [] => some ([], [])
  | c :: cs =>
      if isGap c then some ([], c :: cs)
      else if flow && c = ':' && startsColonTrap cs then none
      else if c = ':' && startsGap cs then some ([], c :: cs)
      else if flow && isFlowMark c then some ([], c :: cs)
      else (readPlainWord flow cs).map fun (word, rest) => (c :: word, rest)

/-- Whether a tab stands in the indentation of a line after the first one. -/
def hasTabIndent (indent : Nat) (run : List Char) : Bool :=
  (laterLines run).any fun line => (line.take indent).contains '\t'

/-- What is read of a plain scalar. -/
structure PlainText where
  text : List Char
  /-- The scalar is followed by the end of its line. -/
  endsLine : Bool
  rest : List Char
  deriving Repr

/--
Reads a plain scalar whose lines are indented by `indent` characters at least.  The second argument
bounds the number of words.
-/
def readPlain (flow : Bool) (indent : Nat) : Nat → List Char → Option PlainText
  | 0, _ => none
  | fuel + 1, cs =>
      match readPlainWord flow cs with
      | none => none
      | some (word, rest) =>
          let run := rest.takeWhile isGap
          let after := rest.dropWhile isGap
          let column := columnAfter? run
          let stop : PlainText := { text := word, endsLine := column.isSome, rest := after }
          if hasTabIndent indent run then none
          else if run.isEmpty || after.head? = some '#' || reachesMark run after then some stop
          else if !flow && (column.map fun n => decide (n < indent)).getD false then some stop
          else
            match readPlain flow indent fuel after with
            | none => none
            | some more =>
                if more.text.isEmpty then some { stop with rest := more.rest }
                else some { more with text := word ++ foldGap run ++ more.text }

end Yaml
end TemplateModules
