import TemplateModules.Spec.Code

/-!
# Numbering sections

The sections of a template are written out side by side.  Those of blocks get the numbers from one
on, each before the sections inside it, and a block refers to its sections by number.
-/

namespace TemplateModules
namespace Spec

/-- A reference to a numbered section. -/
structure SectionRef where
  number : Nat
  /-- How many block parameters the section has. -/
  params : Nat
  deriving DecidableEq, Repr

/-- A section whose blocks refer to other sections by number. -/
structure Function where
  lines : List (Line SectionRef)

/-- The sections of a template, each with references to others. -/
structure Layout where
  main : Function
  /-- The sections of blocks, in the order of their numbers. -/
  children : List Function

mutual

/-- Numbers a section and those inside it, from `number` on. -/
def numberSection (number : Nat) : Section → SectionRef × List Function
  | .mk names lines =>
      let (lines, inner) := numberLines (number + 1) lines
      ({ number, params := names.length }, { lines } :: inner)

/-- Numbers the sections inside a list of lines, from `number` on. -/
def numberLines (number : Nat) :
    List (Line Section) → List (Line SectionRef) × List Function
  | [] => ([], [])
  | line :: lines =>
      let (line, inner) := numberLine number line
      let (lines, later) := numberLines (number + inner.length) lines
      (line :: lines, inner ++ later)

/-- Numbers the sections of one line, from `number` on. -/
def numberLine (number : Nat) : Line Section → Line SectionRef × List Function
  | .text text => (.text text, [])
  | .mustache escaped shown tag => (.mustache escaped shown tag, [])
  | .inclusion name context hash tag => (.inclusion name context hash tag, [])
  | .block opening main inverse tag =>
      let (main, inner) := numberSection number main
      let (inverse, later) := numberInverse (number + inner.length) inverse
      (.block opening main inverse tag, inner ++ later)

/-- Numbers an inverse section, if there is one. -/
def numberInverse (number : Nat) : Option Section → Option SectionRef × List Function
  | none => (none, [])
  | some inverse =>
      let (ref, inner) := numberSection number inverse
      (some ref, inner)

end

/-- The numbers of later lines go on behind those of earlier ones. -/
theorem numberLines_append (n : Nat) (xs ys : List (Line Section)) :
    numberLines n (xs ++ ys) =
      ((numberLines n xs).1 ++ (numberLines (n + (numberLines n xs).2.length) ys).1,
        (numberLines n xs).2 ++ (numberLines (n + (numberLines n xs).2.length) ys).2) := by
  induction xs generalizing n with
  | nil => simp [numberLines]
  | cons x xs ih => simp [numberLines, ih, Nat.add_assoc]

/-- The layout of the sections of a template, whose main section is not numbered. -/
def Section.layout (main : Section) : Layout :=
  let (lines, children) := numberLines 1 main.lines
  { main := { lines }, children }

end Spec
end TemplateModules
