import TemplateModules.Template.Error
import TemplateModules.Text.Blank

/-!
# Reading lexemes

The expression of a tag is divided into lexemes from left to right.  Blanks only separate, quotes
protect everything but themselves, and square brackets inside a word protect everything but the
closing bracket.
-/

namespace TemplateModules
namespace Template
namespace Lexeme

open Text

/-- The lexeme that a character is by itself. -/
def mark? : Char → Option Lexeme
  | '(' => some openParen
  | ')' => some closeParen
  | '=' => some equals
  | '|' => some pipe
  | _ => none

/-- Whether a character is a quote. -/
def isQuote (c : Char) : Bool :=
  c == '"' || c == '\''

/-- Whether a word ends before a character. -/
def endsWord (c : Char) : Bool :=
  isBlank c || (mark? c).isSome || isQuote c

/--
Reads up to the closing quote.  A backslash before the quote makes the quote part of the text; it
stands for itself before any other character.  The flag says that the next character is such a
quote.
-/
def readQuoted (quote : Char) : Bool → List Char → Option (List Char × List Char)
  | _, [] => none
  | escaped, c :: cs =>
      if escaped then (readQuoted quote false cs).map fun (text, rest) => (c :: text, rest)
      else if c = '\\' ∧ cs.head? = some quote then readQuoted quote true cs
      else if c = quote then some ([], cs)
      else (readQuoted quote false cs).map fun (text, rest) => (c :: text, rest)

/-- Reads up to the end of a word.  The flag says that a bracket is open. -/
def readWord : Bool → List Char → Option (List Char × List Char)
  | bracket, [] => if bracket then none else some ([], [])
  | bracket, c :: cs =>
      if !bracket && endsWord c then some ([], c :: cs)
      else
        let bracket := if bracket then c != ']' else c == '['
        (readWord bracket cs).map fun (chars, rest) => (c :: chars, rest)

/-- What follows a quoted text is shorter than the text before its end. -/
theorem length_lt_of_readQuoted
    {quote : Char} {escaped : Bool} {cs text rest : List Char}
    (h : readQuoted quote escaped cs = some (text, rest)) :
    rest.length < cs.length := by
  induction cs generalizing escaped text with
  | nil => simp [readQuoted] at h
  | cons c cs ih =>
    rw [readQuoted] at h
    split at h
    · simp only [Option.map_eq_some_iff, Prod.mk.injEq, Prod.exists] at h
      obtain ⟨t, r, hrec, _, rfl⟩ := h
      exact Nat.lt_succ_of_lt (ih hrec)
    · split at h
      · exact Nat.lt_succ_of_lt (ih h)
      · split at h
        · simp only [Option.some.injEq, Prod.mk.injEq] at h
          simp [h.2]
        · simp only [Option.map_eq_some_iff, Prod.mk.injEq, Prod.exists] at h
          obtain ⟨t, r, hrec, _, rfl⟩ := h
          exact Nat.lt_succ_of_lt (ih hrec)

/-- What follows a word is not longer than the text before it. -/
theorem length_le_of_readWord
    {bracket : Bool} {cs chars rest : List Char}
    (h : readWord bracket cs = some (chars, rest)) :
    rest.length ≤ cs.length := by
  induction cs generalizing bracket chars with
  | nil =>
    rw [readWord] at h
    split at h <;> simp_all
  | cons c cs ih =>
    rw [readWord] at h
    split at h
    · simp only [Option.some.injEq, Prod.mk.injEq] at h
      simp [← h.2]
    · simp only [Option.map_eq_some_iff, Prod.mk.injEq, Prod.exists] at h
      obtain ⟨w, r, hrec, _, rfl⟩ := h
      exact Nat.le_succ_of_le (ih hrec)

/-- The lexemes of an expression. -/
def readAll : List Char → Except Malformed (List Lexeme)
  | [] => .ok []
  | c :: cs =>
      if isBlank c then readAll cs
      else
        match mark? c with
        | some lexeme => (readAll cs).map (lexeme :: ·)
        | none =>
            if isQuote c then
              match hquoted : readQuoted c false cs with
              | none => .error .unterminatedText
              | some (text, rest) =>
                  have := length_lt_of_readQuoted hquoted
                  (readAll rest).map (.quoted (String.ofList text) :: ·)
            else
              match hword : readWord (c == '[') cs with
              | none => .error .unterminatedBracket
              | some (chars, rest) =>
                  have := length_le_of_readWord hword
                  (readAll rest).map (.word (String.ofList (c :: chars)) :: ·)
termination_by cs => cs.length

/-- The lexemes of an expression given as a string. -/
def ofBody (body : String) : Except Malformed (List Lexeme) :=
  readAll body.toList

end Lexeme
end Template
end TemplateModules
