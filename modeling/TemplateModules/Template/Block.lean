import TemplateModules.Template.Call
import TemplateModules.Template.Scan

/-!
# Reading blocks

The tokens of a template are nested by their block, `else` and close tags.  A block is closed
under the text of its head.  A chained `else` opens a block of its own that is the only statement
of the inverse section, and shares the close tag of the block around it.
-/

namespace TemplateModules
namespace Template

/-- The text under which a block with this head is closed. -/
def Expr.closingText : Expr → String
  | .path found => found.text
  | .literal (.text value) => value
  | .literal (.number numeral) => numeral.text
  | .literal (.bool true) => "true"
  | .literal (.bool false) => "false"
  | .literal .null => "null"
  | .literal .undefined => "undefined"
  | .sub _ => "(subexpression)"

namespace Tag

/-- An error found in a tag. -/
def refuse {α : Type} (tag : Tag) (cause : Cause) : Except Error α :=
  .error { cause, span := tag.span }

def call (tag : Tag) (allowed : Bool) : Except Error (Call × List String) :=
  match parseCall tag.body allowed with
  | .ok result => .ok result
  | .error e => tag.refuse (.malformed e)

/-- The partial in a tag. -/
def inclusion (tag : Tag) : Except Error Inclusion :=
  match parseInclusion tag.body with
  | .ok result => .ok result
  | .error cause => tag.refuse cause

end Tag

/-- The tokens that follow something that may be empty. -/
abbrev Remaining (ts : List Token) := { rest : List Token // rest.length ≤ ts.length }

/-- The main section of a block, the inverse one if there is one, and the tokens that follow. -/
abbrev Sections (ts : List Token) := Program × Option Program × Remaining ts

mutual

/-- Reads statements up to an `else` tag, a close tag or the end. -/
def readBody (ts : List Token) : Except Error (List Statement × Remaining ts) :=
  match ts with
  | [] => .ok ([], ⟨[], by simp⟩)
  | .content text _ :: rest => continueBody (.content text) rest
  | .tag tag :: rest =>
      match tag.kind with
      | .alternative => .ok ([], ⟨.tag tag :: rest, by simp⟩)
      | .close => .ok ([], ⟨.tag tag :: rest, by simp⟩)
      | .comment => continueBody (.comment tag.body) rest
      | .mustache =>
          match tag.call false with
          | .error e => .error e
          | .ok (call, _) => continueBody (.mustache call true tag.span) rest
      | .unescaped =>
          match tag.call false with
          | .error e => .error e
          | .ok (call, _) => continueBody (.mustache call false tag.span) rest
      | .inclusion =>
          match tag.inclusion with
          | .error e => .error e
          | .ok p => continueBody (.inclusion p.name p.context p.hash tag.span) rest
      | .block =>
          match readBlock tag rest with
          | .error e => .error e
          | .ok (call, main, inverse, ⟨later, hlater⟩) =>
              match continueBody (.block call main inverse tag.span) later with
              | .error e => .error e
              | .ok (body, ⟨rest', hrest⟩) =>
                  .ok (body, ⟨rest', by simp only [List.length_cons] at hrest ⊢; omega⟩)
      | .inverse =>
          match readBlock tag rest with
          | .error e => .error e
          | .ok (call, main, inverse, ⟨later, hlater⟩) =>
              match
                continueBody (.block call (inverse.getD .empty) (some main) tag.span) later with
              | .error e => .error e
              | .ok (body, ⟨rest', hrest⟩) =>
                  .ok (body, ⟨rest', by simp only [List.length_cons] at hrest ⊢; omega⟩)
termination_by 4 * ts.length

/-- Puts a statement in front of the statements that follow it. -/
def continueBody (first : Statement) (rest : List Token) :
    Except Error (List Statement × { later : List Token // later.length ≤ rest.length + 1 }) :=
  match readBody rest with
  | .error e => .error e
  | .ok (body, ⟨later, h⟩) => .ok (first :: body, ⟨later, by omega⟩)
termination_by 4 * rest.length + 1

/-- Reads a block behind its opening tag: its call, its sections, and its close tag. -/
def readBlock (tag : Tag) (ts : List Token) :
    Except Error (Call × Program × Option Program × Remaining ts) :=
  match tag.call true with
  | .error e => .error e
  | .ok (call, names) =>
      match readSections names ts with
      | .error e => .error e
      | .ok (main, inverse, ⟨rest, hrest⟩) =>
          let name := call.head.closingText
          match rest, hrest with
          | .tag closing :: rest, hrest =>
              if closing.kind = .close then
                if closing.body = name then
                  .ok (call, main, inverse,
                    ⟨rest, by simp only [List.length_cons] at hrest; omega⟩)
                else closing.refuse (.mismatchedClose name closing.body)
              else tag.refuse (.unclosedBlock name)
          | _, _ => tag.refuse (.unclosedBlock name)
termination_by 4 * ts.length + 2

/-- Reads the sections of a block up to its close tag. -/
def readSections (names : List String) (ts : List Token) : Except Error (Sections ts) :=
  match readBody ts with
  | .error e => .error e
  | .ok (body, ⟨rest, hrest⟩) =>
      let main : Program := { body, blockParams := names }
      match rest, hrest with
      | .tag tag :: rest, hrest =>
          have hlt : rest.length < ts.length := by
            simp only [List.length_cons] at hrest
            omega
          if tag.kind = .alternative then
            if tag.body.isEmpty then
              match readBody rest with
              | .error e => .error e
              | .ok (other, ⟨later, hlater⟩) =>
                  match later, hlater with
                  | .tag next :: later, hlater =>
                      if next.kind = .alternative then next.refuse (.strayTag "else")
                      else
                        .ok (main, some { body := other, blockParams := [] },
                          ⟨.tag next :: later, by omega⟩)
                  | later, hlater =>
                      .ok (main, some { body := other, blockParams := [] },
                        ⟨later, by omega⟩)
            else
              match tag.call true with
              | .error e => .error e
              | .ok (call, names) =>
                  match readSections names rest with
                  | .error e => .error e
                  | .ok (inner, innerInverse, ⟨later, hlater⟩) =>
                      .ok (main,
                        some { body := [.block call inner innerInverse tag.span],
                               blockParams := [] },
                        ⟨later, by omega⟩)
          else .ok (main, none, ⟨.tag tag :: rest, hrest⟩)
      | rest, hrest => .ok (main, none, ⟨rest, hrest⟩)
termination_by 4 * ts.length + 1

end

/-- The program that a list of tokens is. -/
def ofTokens (ts : List Token) : Except Error Program :=
  match readBody ts with
  | .error e => .error e
  | .ok (_, ⟨.tag tag :: _, _⟩) =>
      match tag.kind with
      | .alternative => tag.refuse (.strayTag "else")
      | _ => tag.refuse (.strayTag ("/" ++ tag.body))
  | .ok (body, ⟨_, _⟩) => .ok { body, blockParams := [] }

/-- The program that a source is. -/
def parse (source : String) : Except Failure Program :=
  match scan source with
  | .error f => .error f
  | .ok tokens =>
      match ofTokens tokens with
      | .error e => .error (.refused e)
      | .ok program => .ok program

end Template
end TemplateModules
