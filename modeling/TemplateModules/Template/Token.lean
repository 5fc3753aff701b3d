import TemplateModules.Source.Span

/-!
# Tokens

A template is a sequence of tokens: plain content and tags.  A tag keeps the expression inside it
as text; which kind of tag it is follows from the mark after its opening braces.
-/

namespace TemplateModules
namespace Template

inductive TagKind where
  /-- A value that is escaped. -/
  | mustache
  /-- A value that is not escaped: three braces, or an ampersand. -/
  | unescaped
  /-- The start of a block. -/
  | block
  /-- The start of a block whose main section is the one for an absent value. -/
  | inverse
  /-- The end of a block. -/
  | close
  /-- A partial. -/
  | inclusion
  /-- The start of the other section of a block. -/
  | alternative
  | comment
  deriving DecidableEq, Repr, Inhabited

/-- Whether a tag removes the blank characters before and after it. -/
structure Strip where
  before : Bool
  after : Bool
  deriving DecidableEq, Repr, Inhabited

structure Tag where
  kind : TagKind
  /-- The expression inside, without the braces, the marks and the blanks around it. -/
  body : String
  strip : Strip
  span : Span
  deriving DecidableEq, Repr

/-- A part of a template. -/
inductive Token where
  | content (text : String) (span : Span)
  | tag (tag : Tag)
  deriving DecidableEq, Repr

namespace Token

/-- The stretch of the source that a token stands for. -/
def span : Token → Span
  | content _ span => span
  | tag t => t.span

end Token
end Template
end TemplateModules
