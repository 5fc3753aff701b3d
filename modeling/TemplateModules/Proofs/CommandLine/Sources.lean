import TemplateModules.Proofs.CommandLine.Runs
import TemplateModules.Proofs.Files.Extension

/-!
# Modules at the paths of inputs

The plan compares outputs with each other, and never with the paths of inputs.  So a module can be
planned where an input is.  The check for collisions still says a lot: an input that would get its
own path as its output keeps all other modules away from it.
-/

namespace TemplateModules

namespace Loading
namespace Filter

end Filter
end Loading

namespace CommandLine

open Loading (Outcome)

theorem isExtension_moduleExtension : FilePath.IsExtension moduleExtension where
  nonempty := by decide
  point := by decide
  slash := by decide

section

variable {s : Surroundings} {f : Loading.Filter} {path : FilePath} {location : Location}
  {i : Input}

end

section

variable {p : Planning} {outDir : Option FilePath} {inputs : List Input} {plan : OutputPlan}

/-- Where inputs may not collide, no output is claimed before and no two are the same. -/
theorem outputs_of_planFrom (h : planFrom p outDir false inputs = .ok plan) :
    (∀ i ∈ inputs, p.claimed.get? (outputPath outDir i) = none) ∧
      inputs.Pairwise fun i k => ¬(outputPath outDir i).same (outputPath outDir k) = true := by
  induction inputs generalizing p with
  | nil => exact ⟨fun i hi => absurd hi List.not_mem_nil, .nil⟩
  | cons input inputs ih =>
      have hfree : p.claimed.get? (outputPath outDir input) = none := by
        cases hclaimed : p.claimed.get? (outputPath outDir input) with
        | none => rfl
        | some first =>
            unfold planFrom at h
            dsimp only at h
            rw [hclaimed] at h
            cases h
      obtain ⟨hclaimed, hdifferent⟩ := ih (planFrom_cons h)
      simp only [Planning.add, PathMap.get?_insert] at hclaimed
      have hothers : ∀ k ∈ inputs,
          ¬(outputPath outDir input).same (outputPath outDir k) = true ∧
            p.claimed.get? (outputPath outDir k) = none := by
        intro k hk
        have hnone := hclaimed k hk
        split at hnone
        · cases hnone
        · next hsame => exact ⟨hsame, hnone⟩
      constructor
      · intro i hi
        rcases List.mem_cons.mp hi with rfl | hi
        · exact hfree
        · exact (hothers i hi).2
      · exact List.pairwise_cons.mpr ⟨fun k hk => (hothers k hk).1, hdifferent⟩

end

/-! ## What is written -/

section

variable {m : Host Id} {c : Config} {files : List FilePath} {path : FilePath} {o : Outcome}
  {output : Loading.LoadOutput}

end

/-! ## Modules over inputs -/

namespace Job

/-- The output of an input is planned at the path of an input, the same one or another. -/
def Covers (j : Job) (i k : Input) : Prop :=
  ∃ target, j.plan.get? i.path = some target ∧ target.same k.path = true

end Job

example : outputPath none ⟨⟨"/t/a.tar.hbs"⟩, ⟨"a.tar.hbs"⟩⟩ = ⟨"/t/a.tar.js"⟩ := by
  decide +kernel

section

variable {disk : Disk} {directory : FilePath} {a : Arguments} {job : Job} {i k : Input}
  (hjob : Id.run (prepare (diskHost disk directory) a) = .ok job)

include hjob

end

end CommandLine
end TemplateModules
