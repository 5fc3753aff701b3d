import TemplateModules.Source.Span
import TemplateModules.Template.Lexeme

/-!
# Errors of templates

An error is a cause and the span of the tag that it is found in.  The wording of all errors is in
`Error.message`.
-/

namespace TemplateModules
namespace Template

/-- The ways in which a tag can be malformed. -/
inductive Malformed where
  | unclosedTag
  | unclosedComment
  | emptyTag
  | unterminatedText
  | unterminatedBracket
  | invalidPath (word : String)
  | unexpected (lexeme : Lexeme)
  | missingExpression
  | unclosedSubexpression
  | positionalAfterHash
  | blockParamsOutsideBlock
  | invalidBlockParams
  | missingPartialName
  | severalContexts
  | invalidHelperName
  | invalidBlockName
  | invalidSubexpressionHelper
  deriving DecidableEq, Repr

namespace Malformed

/-- The wording of a malformed tag. -/
def message : Malformed → String
  | unclosedTag => "Unclosed mustache tag"
  | unclosedComment => "Unclosed comment"
  | emptyTag => "Empty mustache tag"
  | unterminatedText => "Unterminated string literal"
  | unterminatedBracket => "Unterminated [ in path"
  | invalidPath word => "Invalid path: " ++ word
  | unexpected lexeme => "Unexpected " ++ lexeme.describe
  | missingExpression => "Expected an expression"
  | unclosedSubexpression => "Unclosed subexpression"
  | positionalAfterHash => "Positional argument after hash arguments"
  | blockParamsOutsideBlock => "Block parameters are only valid on blocks"
  | invalidBlockParams => "Invalid block parameters"
  | missingPartialName => "Expected a partial name"
  | severalContexts => "Partials accept at most one context argument"
  | invalidHelperName => "Invalid helper name"
  | invalidBlockName => "Invalid block name"
  | invalidSubexpressionHelper => "Invalid subexpression helper"

end Malformed

/-- Features of the template language that are recognised and refused. -/
inductive Feature where
  | rawBlocks
  | partialBlocks
  | decoratorBlocks
  | decorators
  | dynamicPartials
  | pathHelper
  | pathBlockHelper
  | parentData
  deriving DecidableEq, Repr

namespace Feature

/-- The name of a feature in messages. -/
def name : Feature → String
  | rawBlocks => "raw blocks"
  | partialBlocks => "partial blocks"
  | decoratorBlocks => "decorator blocks"
  | decorators => "decorators"
  | dynamicPartials => "dynamic partials"
  | pathHelper => "calling a path as a helper"
  | pathBlockHelper => "calling a path as a block helper"
  | parentData => "parent data paths"

end Feature

/-- Why a template is refused. -/
inductive Cause where
  | malformed (what : Malformed)
  /-- Only known helpers are allowed, and this is a call of another one. -/
  | unknownHelper (name : String)
  /-- A block is closed under another name than it is opened. -/
  | mismatchedClose (opened closed : String)
  | unclosedBlock (name : String)
  /-- An `else` or a close tag that belongs to no block. -/
  | strayTag (tag : String)
  | unsupported (feature : Feature)
  deriving DecidableEq, Repr

/-- A cause together with the tag it is found in. -/
structure Error where
  cause : Cause
  span : Span
  deriving DecidableEq, Repr

namespace Error

/-- The text of an error. -/
def message (e : Error) : String :=
  match e.cause with
  | .malformed what => "Parse error on line " ++ toString e.span.line ++ ": " ++ what.message
  | .unknownHelper name =>
      "You specified knownHelpersOnly, but used the unknown helper " ++ name ++ " - " ++
        e.span.place
  | .mismatchedClose opened closed =>
      opened ++ " doesn't match " ++ closed ++ " - " ++ e.span.place
  | .unclosedBlock name => "Unclosed block '" ++ name ++ "' opened at " ++ e.span.place
  | .strayTag tag => "Unexpected '" ++ tag ++ "' outside of a block - " ++ e.span.place
  | .unsupported feature =>
      "Unsupported template feature: " ++ feature.name ++ " - " ++ e.span.place

end Error

/-- How the reading of a source can end without tokens. -/
inductive Failure where
  /-- The template is refused. -/
  | refused (e : Error)
  /-- A stretch of text to be copied would end before it starts: there is no answer at all. -/
  | backwards
  deriving DecidableEq, Repr

end Template
end TemplateModules
