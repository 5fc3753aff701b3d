import TemplateModules.CommandLine.Inputs

/-!
# The plan of a run

The plan says where the module of each input is written: next to the template, or below a directory
with the input's relative path.  Two inputs with one output are an error, unless nothing is
written.
-/

namespace TemplateModules
namespace CommandLine

def moduleExtension : String := "js"

/-- Two inputs with one output. -/
structure Collision where
  first : FilePath
  second : FilePath
  output : FilePath
  deriving DecidableEq, Repr

namespace Collision

/-- The text of a collision. -/
def message (c : Collision) : String :=
  "Output collision: " ++ c.first.text ++ " and " ++ c.second.text ++ " both compile to " ++
    c.output.text

end Collision

/-- Where the module of an input is written. -/
def outputPath (outDir : Option FilePath) (input : Input) : FilePath :=
  match outDir with
  | some directory => (directory.join input.relative).withExtension moduleExtension
  | none => input.path.withExtension moduleExtension

/-- The outputs of inputs, by the paths of the inputs. -/
abbrev OutputPlan := PathMap FilePath

/-- A plan that is being made. -/
structure Planning where
  /-- The inputs with their outputs. -/
  plan : OutputPlan
  /-- The outputs with the last inputs that have them. -/
  claimed : PathMap FilePath
  deriving Repr

namespace Planning

/-- The plan for no inputs. -/
def empty : Planning := { plan := .empty, claimed := .empty }

/-- Adds an input to a plan. -/
def add (p : Planning) (outDir : Option FilePath) (input : Input) : Planning :=
  let output := outputPath outDir input
  { plan := p.plan.insert input.path output, claimed := p.claimed.insert output input.path }

end Planning

/-- Adds inputs to a plan. -/
def planFrom (p : Planning) (outDir : Option FilePath) (mayCollide : Bool) :
    List Input → Except Collision OutputPlan
  | [] => .ok p.plan
  | input :: inputs =>
      let output := outputPath outDir input
      match p.claimed.get? output, mayCollide with
      | some first, false => .error { first, second := input.path, output }
      | _, _ => planFrom (p.add outDir input) outDir mayCollide inputs

/-- The plan for inputs. -/
def planOutputs (a : Arguments) (inputs : List Input) : Except Collision OutputPlan :=
  planFrom .empty a.outDir a.json inputs

end CommandLine
end TemplateModules
