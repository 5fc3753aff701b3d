import TemplateModules.Spec.Artifact

/-!
# Compilations that succeed

A compilation that succeeds does so in each of its parts, and its result is made of theirs.
-/

namespace TemplateModules

theorem exists_ok_of_isOk {ε α : Type} {x : Except ε α} (h : x.isOk = true) :
    ∃ a, x = .ok a := by
  cases x with
  | error e => cases h
  | ok a => exact ⟨a, rfl⟩

namespace Spec

open Template

/-- A compilation that goes on succeeds in both of its parts. -/
theorem Reporting.exists_of_bind
    {α β : Type} {x : Reporting α} {f : α → Reporting β} {b : β}
    (h : (x >>= f).result = .ok b) :
    ∃ a, x.result = .ok a ∧ (f a).result = .ok b := by
  cases hx : x.result with
  | error e => simp [Bind.bind, Reporting.bind, hx] at h
  | ok a =>
      refine ⟨a, rfl, ?_⟩
      simpa [Bind.bind, Reporting.bind, hx] using h

section

variable {options : Options} {scopes : Scopes}

/-- Statements compile one after another. -/
theorem exists_of_compileLines_cons
    {s : Statement} {body : List Statement} {lines : List (Line Section)}
    (h : (compileLines options scopes (s :: body)).result = .ok lines) :
    ∃ line? rest, lines = line?.toList ++ rest ∧
      (compileStatement options scopes s).result = .ok line? ∧
      (compileLines options scopes body).result = .ok rest := by
  obtain ⟨line?, hline, h⟩ := Reporting.exists_of_bind h
  obtain ⟨rest, hrest, h⟩ := Reporting.exists_of_bind h
  cases h
  exact ⟨line?, rest, rfl, hline, hrest⟩

/-- A source that compiles is parsed and its program is compiled; the artifact is that of the
section which comes out. -/
theorem exists_section_of_precompile
    {source : String} {artifact : Artifact}
    (h : (precompile options source).result = .ok artifact) :
    ∃ program main, parse source = .ok program ∧
      (compileSection options [] program).result = .ok main ∧
      artifact = Spec.artifact options source main := by
  unfold precompile at h
  cases hparse : parse source with
  | error e => simp [hparse] at h
  | ok program =>
      cases hmain : (compileSection options [] program).result with
      | error e => simp [hparse, hmain] at h
      | ok main =>
          simp only [hparse, hmain, Except.ok.injEq] at h
          exact ⟨program, main, rfl, hmain, h.symm⟩

/-- The artifact of a template is that of the lines of its program. -/
theorem exists_lines_of_precompile
    {source : String} {program : Program} {artifact : Artifact}
    (hparse : parse source = .ok program)
    (h : (precompile options source).result = .ok artifact) :
    ∃ lines, (compileLines options [program.blockParams] program.body).result = .ok lines ∧
      artifact = Spec.artifact options source (.mk program.blockParams lines) := by
  obtain ⟨parsed, main, hparsed, hmain, rfl⟩ := exists_section_of_precompile h
  obtain rfl : program = parsed := Except.ok.inj (hparse.symm.trans hparsed)
  obtain ⟨body, blockParams⟩ := program
  obtain ⟨lines, hlines, hmain⟩ := Reporting.exists_of_bind hmain
  cases hmain
  exact ⟨lines, hlines, rfl⟩

end

end Spec
end TemplateModules
