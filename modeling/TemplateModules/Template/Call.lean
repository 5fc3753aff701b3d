import TemplateModules.Template.Lexeme.Read
import TemplateModules.Template.Word

/-!
# Reading calls

The expression of a tag is a head, then positional arguments, then arguments with names, and on a
block perhaps the names of block parameters.  Reading takes the longest call at the front of a
list of lexemes and gives the lexemes that follow it.
-/

namespace TemplateModules
namespace Template

/-- What stands behind a head. -/
structure Arguments where
  params : List Expr
  hash : List (String × Expr)
  blockParams : List String

namespace Arguments

def none : Arguments := { params := [], hash := [], blockParams := [] }

/-- One more positional argument in front. -/
def addParam (value : Expr) (args : Arguments) : Arguments :=
  { args with params := value :: args.params }

/-- One more argument with a name in front. -/
def addNamed (key : String) (value : Expr) (args : Arguments) : Arguments :=
  { args with hash := (key, value) :: args.hash }

end Arguments

/-- The names up to the closing bar of block parameters, and what follows it. -/
def blockParamNames? : List Lexeme → Option (List String × List Lexeme)
  | .word name :: rest => (blockParamNames? rest).map fun (names, rest) => (name :: names, rest)
  | .pipe :: rest => some ([], rest)
  | _ => none

/-- What follows block parameters is shorter than the lexemes before. -/
theorem length_lt_of_blockParamNames?
    {ls rest : List Lexeme} {names : List String}
    (h : blockParamNames? ls = some (names, rest)) :
    rest.length < ls.length := by
  induction ls generalizing names with
  | nil => simp [blockParamNames?] at h
  | cons l ls ih =>
    cases l with
    | word name =>
      simp only [blockParamNames?, Option.map_eq_some_iff, Prod.mk.injEq, Prod.exists] at h
      obtain ⟨n, r, hrec, _, rfl⟩ := h
      exact Nat.lt_succ_of_lt (ih hrec)
    | pipe =>
      simp only [blockParamNames?, Option.some.injEq, Prod.mk.injEq] at h
      simp [h.2]
    | quoted text => simp [blockParamNames?] at h
    | openParen => simp [blockParamNames?] at h
    | closeParen => simp [blockParamNames?] at h
    | equals => simp [blockParamNames?] at h

/-- The lexemes that follow something that is not empty. -/
abbrev Later (ls : List Lexeme) := { rest : List Lexeme // rest.length < ls.length }

/-- The lexemes that follow something that may be empty. -/
abbrev Left (ls : List Lexeme) := { rest : List Lexeme // rest.length ≤ ls.length }

mutual

/-- Reads an expression. -/
def readExpr (ls : List Lexeme) : Except Malformed (Expr × Later ls) :=
  match ls with
  | [] => .error .missingExpression
  | .word word :: rest =>
      match Expr.ofWord word with
      | .error e => .error e
      | .ok e => .ok (e, ⟨rest, by simp⟩)
  | .quoted text :: rest => .ok (.literal (.text text), ⟨rest, by simp⟩)
  | .openParen :: rest =>
      match readCall false rest with
      | .error e => .error e
      | .ok (call, _, ⟨.closeParen :: rest, h⟩) =>
          .ok (.sub call, ⟨rest, by simp only [List.length_cons] at h ⊢; omega⟩)
      | .ok _ => .error .unclosedSubexpression
  | lexeme :: _ => .error (.unexpected lexeme)
termination_by 2 * ls.length

/-- Reads a call, and the names of its block parameters if they are allowed. -/
def readCall (allowed : Bool) (ls : List Lexeme) :
    Except Malformed (Call × List String × Later ls) :=
  match readExpr ls with
  | .error e => .error e
  | .ok (head, ⟨rest, hrest⟩) =>
      match readArguments allowed false rest with
      | .error e => .error e
      | .ok (args, ⟨rest, hargs⟩) =>
          .ok ({ head, params := args.params, hash := args.hash }, args.blockParams,
            ⟨rest, by omega⟩)
termination_by 2 * ls.length + 1

/--
Reads arguments up to a closing parenthesis or the end.  The second flag says that an argument
with a name came before, so that no positional one may follow.
-/
def readArguments (allowed named : Bool) (ls : List Lexeme) :
    Except Malformed (Arguments × Left ls) :=
  match ls with
  | [] => .ok (.none, ⟨[], by simp⟩)
  | .closeParen :: rest => .ok (.none, ⟨.closeParen :: rest, by simp⟩)
  | .word "as" :: .pipe :: rest =>
      if allowed then
        match hnames : blockParamNames? rest with
        | some (name :: names, later) =>
            .ok ({ Arguments.none with blockParams := name :: names },
              ⟨later, by
                have := length_lt_of_blockParamNames? hnames
                simp only [List.length_cons]
                omega⟩)
        | _ => .error .invalidBlockParams
      else .error .blockParamsOutsideBlock
  | .word key :: .equals :: rest =>
      match readExpr rest with
      | .error e => .error e
      | .ok (value, ⟨later, hvalue⟩) =>
          match readArguments allowed true later with
          | .error e => .error e
          | .ok (args, ⟨later, hargs⟩) =>
              .ok (args.addNamed key value, ⟨later, by simp only [List.length_cons]; omega⟩)
  | ls =>
      if named then .error .positionalAfterHash
      else
        match readExpr ls with
        | .error e => .error e
        | .ok (value, ⟨later, hvalue⟩) =>
            match readArguments allowed false later with
            | .error e => .error e
            | .ok (args, ⟨later, hargs⟩) => .ok (args.addParam value, ⟨later, by omega⟩)
termination_by 2 * ls.length + 1

end

/-- The call that a tag holds, with the names of its block parameters if they are allowed. -/
def parseCall (body : String) (allowed : Bool) : Except Malformed (Call × List String) :=
  match Lexeme.ofBody body with
  | .error e => .error e
  | .ok ls =>
      match readCall allowed ls with
      | .error e => .error e
      | .ok (call, names, ⟨[], _⟩) => .ok (call, names)
      | .ok (_, _, ⟨lexeme :: _, _⟩) => .error (.unexpected lexeme)

/-- A partial: its name, its context and its arguments with names. -/
structure Inclusion where
  name : String
  context : Option Expr
  hash : List (String × Expr)

/-- The name at the front of a partial. -/
def partialName : List Lexeme → Except Cause (String × List Lexeme)
  | .word name :: rest => .ok (name, rest)
  | .quoted name :: rest => .ok (name, rest)
  | .openParen :: _ => .error (.unsupported .dynamicPartials)
  | _ => .error (.malformed .missingPartialName)

/-- The partial that a tag holds. -/
def parseInclusion (body : String) : Except Cause Inclusion :=
  match Lexeme.ofBody body with
  | .error e => .error (.malformed e)
  | .ok ls =>
      match partialName ls with
      | .error e => .error e
      | .ok (name, rest) =>
          match readArguments false false rest with
          | .error e => .error (.malformed e)
          | .ok (_, ⟨lexeme :: _, _⟩) => .error (.malformed (.unexpected lexeme))
          | .ok (args, ⟨[], _⟩) =>
              match args.params with
              | [] => .ok { name, context := none, hash := args.hash }
              | [context] => .ok { name, context := some context, hash := args.hash }
              | _ => .error (.malformed .severalContexts)

end Template
end TemplateModules
