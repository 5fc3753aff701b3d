import TemplateModules.Text.Printable

/-!
# Lexemes

The inside of a tag is a sequence of lexemes: words, quoted texts and five marks.
-/

namespace TemplateModules
namespace Template

/-- A unit of the expression inside a tag. -/
inductive Lexeme where
  /-- A path, a literal that is not quoted, a key or a name. -/
  | word (text : String)
  /-- A text in quotes, without them. -/
  | quoted (text : String)
  | openParen
  | closeParen
  | equals
  | pipe
  deriving DecidableEq, Repr, Inhabited

namespace Lexeme

/-- A lexeme as messages name it. -/
def describe : Lexeme → String
  | word text => "Word(" ++ Text.display text ++ ")"
  | quoted text => "Str(" ++ Text.display text ++ ")"
  | openParen => "Open"
  | closeParen => "Close"
  | equals => "Equals"
  | pipe => "Pipe"

end Lexeme
end Template
end TemplateModules
