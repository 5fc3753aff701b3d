/-!
# Local names of imports

A module imports every helper and partial under a local name.  A name that can be a local name is
kept; other names get one made from their kind and their letters, with a number if it is taken.
-/

namespace TemplateModules
namespace Module

/-- The local name of the runtime. -/
def runtimeName : String := "Handlebars"

/-- Words that cannot be local names. -/
def reservedWords : List String :=
  ["arguments", "await", "break", "case", "catch", "class", "const", "continue", "debugger",
    "default", "delete", "do", "else", "enum", "eval", "export", "extends", "false", "finally",
    "for", "function", "if", "implements", "import", "in", "instanceof", "interface", "let",
    "new", "null", "package", "private", "protected", "public", "return", "static", "super",
    "switch", "this", "throw", "true", "try", "typeof", "undefined", "var", "void", "while",
    "with", "yield"]

/-- Whether a character is an ASCII letter. -/
def isLetter (c : Char) : Bool :=
  ('a' ≤ c && c ≤ 'z') || ('A' ≤ c && c ≤ 'Z')

/-- Whether a character may start an ASCII identifier. -/
def startsIdentifier (c : Char) : Bool :=
  isLetter c || c == '_' || c == '$'

/-- Whether a character may stand inside an ASCII identifier. -/
def continuesIdentifier (c : Char) : Bool :=
  startsIdentifier c || ('0' ≤ c && c ≤ '9')

/-- Whether a name is an ASCII identifier. -/
def isIdentifier (name : String) : Bool :=
  match name.toList with
  | [] => false
  | c :: cs => startsIdentifier c && cs.all continuesIdentifier

/-- A name with every character that cannot stand in an identifier replaced. -/
def sanitize (name : String) : String :=
  String.ofList (name.toList.map fun c => if continuesIdentifier c then c else '_')

/-- The names that are tried in turn: the base itself, and then the base with a number from two. -/
def candidate (base : String) : Nat → String
  | 0 => base
  | n + 1 => base ++ "_" ++ toString (n + 2)

/-- The first candidate that is not taken.  One of any `used.length + 1` candidates is free. -/
def firstFree (used : List String) (base : String) : String :=
  (((List.range (used.length + 1)).map (candidate base)).find? (!used.contains ·)).getD base

/-- A local name that is not taken, for a name of a kind. -/
def bind (used : List String) (kind name : String) : String :=
  if isIdentifier name && !reservedWords.contains name && !used.contains name then name
  else firstFree used (kind ++ "_" ++ sanitize name)

end Module
end TemplateModules
