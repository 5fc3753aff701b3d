import Mathlib.Tactic.Common
import TemplateModules.Spec.Compile

/-!
# Names in scope

A name stands for the block parameter that is declared innermost, and within one section for the
first of its name.  Compilation here takes the scopes as an argument; a compiler that keeps them on
a stack, with a push in front of the statements of a section and a pop behind them, does the same
and leaves the stack as it was.
-/

namespace TemplateModules
namespace Spec

open Template

/-! ## Block parameters -/

theorem position?_eq_some_iff {name : String} {names : List String} {index : Nat} :
    position? name names = some index ↔
      names[index]? = some name ∧ name ∉ names.take index := by
  induction names generalizing index with
  | nil => simp [position?]
  | cons n ns ih =>
      by_cases hn : n = name
      · cases index with
        | zero => simp [position?, hn]
        | succ index => simp [position?, hn]
      · have hne : name ≠ n := fun h => hn h.symm
        cases index with
        | zero => simp [position?, hn]
        | succ index => simp [position?, hn, hne, ih]

theorem position?_eq_none_iff {name : String} {names : List String} :
    position? name names = none ↔ name ∉ names := by
  induction names with
  | nil => simp [position?]
  | cons n ns ih =>
      by_cases hn : n = name
      · simp [position?, hn]
      · have hne : name ≠ n := fun h => hn h.symm
        simp [position?, hn, hne, ih]

/-- A name is that of a block parameter: the section that is `level` sections out declares it, first
at `index` in its list, and no section further in does. -/
structure IsParam (scopes : Scopes) (name : String) (level index : Nat) : Prop where
  declared : ∃ names, scopes[level]? = some names ∧ names[index]? = some name ∧
    name ∉ names.take index
  innermost : ∀ names ∈ scopes.take level, name ∉ names

theorem blockParam?_eq_some_iff {scopes : Scopes} {name : String} {level index : Nat} :
    blockParam? name scopes = some (level, index) ↔ IsParam scopes name level index := by
  induction scopes generalizing level with
  | nil =>
      constructor
      · intro h
        cases h
      · rintro ⟨⟨names, hnames, -⟩, -⟩
        cases hnames
  | cons names scopes ih =>
      cases hposition : position? name names with
      | some first =>
          obtain ⟨hget, hfirst⟩ := position?_eq_some_iff.mp hposition
          simp only [blockParam?, hposition, Option.some.injEq, Prod.mk.injEq]
          constructor
          · rintro ⟨rfl, rfl⟩
            exact ⟨⟨names, rfl, hget, hfirst⟩, by simp⟩
          · rintro ⟨⟨found, hlevel, hindex, hbefore⟩, hinner⟩
            cases level with
            | zero =>
                cases hlevel
                have hsame := position?_eq_some_iff.mpr ⟨hindex, hbefore⟩
                rw [hposition, Option.some.injEq] at hsame
                exact ⟨rfl, hsame⟩
            | succ level => exact absurd (List.mem_of_getElem? hget) (hinner names (by simp))
      | none =>
          have habsent := position?_eq_none_iff.mp hposition
          cases level with
          | zero =>
              have hleft : blockParam? name (names :: scopes) ≠ some (0, index) := by
                simp [blockParam?, hposition]
              refine iff_of_false hleft ?_
              rintro ⟨⟨found, hlevel, hindex, -⟩, -⟩
              cases hlevel
              exact habsent (List.mem_of_getElem? hindex)
          | succ level =>
              have hstep : blockParam? name (names :: scopes) = some (level + 1, index) ↔
                  blockParam? name scopes = some (level, index) := by
                simp [blockParam?, hposition]
              rw [hstep, ih]
              constructor
              · rintro ⟨hdeclared, hinner⟩
                refine ⟨by simpa using hdeclared, ?_⟩
                rw [List.take_succ_cons, List.forall_mem_cons]
                exact ⟨habsent, hinner⟩
              · rintro ⟨hdeclared, hinner⟩
                rw [List.take_succ_cons, List.forall_mem_cons] at hinner
                exact ⟨by simpa using hdeclared, hinner.2⟩

/-- Whether a section around a place declares a name. -/
def Scopes.binds (scopes : Scopes) (name : String) : Bool :=
  scopes.any fun names => names.contains name

theorem isSome_blockParam? (scopes : Scopes) (name : String) :
    (blockParam? name scopes).isSome = scopes.binds name := by
  induction scopes with
  | nil => rfl
  | cons names scopes ih =>
      have hcons : Scopes.binds (names :: scopes) name =
          (names.contains name || Scopes.binds scopes name) := rfl
      rw [hcons, ← ih]
      cases hposition : position? name names with
      | some first =>
          have hmem := List.mem_of_getElem? (position?_eq_some_iff.mp hposition).1
          simp [blockParam?, hposition, hmem]
      | none =>
          have habsent := position?_eq_none_iff.mp hposition
          simp [blockParam?, hposition, habsent]

/-! ## The stack of scopes -/

/-- A compilation that keeps the scopes on a stack, the innermost on top. -/
abbrev Stacked (α : Type) := StateT Scopes Reporting α

namespace Stacked

/-- A compilation with the scopes that are on the stack. -/
def within {α : Type} (x : Scopes → Reporting α) : Stacked α :=
  fun scopes => do return (← x scopes, scopes)

/-- Puts the block parameters of a section on the stack. -/
def push (names : List String) : Stacked Unit :=
  modify (names :: ·)

/-- Takes the innermost block parameters from the stack. -/
def pop : Stacked Unit :=
  modify List.tail

mutual

/-- Compiles a program, with its block parameters on the stack meanwhile. -/
def compileSection (options : Options) : Program → Stacked Section
  | { body, blockParams } => do
      push blockParams
      let lines ← compileLines options body
      pop
      return .mk blockParams lines

def compileLines (options : Options) : List Statement → Stacked (List (Line Section))
  | [] => pure []
  | s :: rest => do
      let line ← compileStatement options s
      let lines ← compileLines options rest
      return line.toList ++ lines

def compileStatement (options : Options) : Statement → Stacked (Option (Line Section))
  | .block call main inverse tag => do
      let opening ← within fun scopes => compileOpening options scopes tag call
      let main ← compileSection options main
      let inverse ← compileInverse options inverse
      return some (.block opening main inverse tag)
  | s => within fun scopes => Spec.compileStatement options scopes s

def compileInverse (options : Options) : Option Program → Stacked (Option Section)
  | none => pure none
  | some p => do return some (← compileSection options p)

end

end Stacked

namespace Reporting

variable {α β γ : Type}

protected theorem id_map (x : Reporting α) : id <$> x = x := by
  obtain ⟨lookups, result⟩ := x
  cases result with
  | error e => rfl
  | ok a => simp [Functor.map, Reporting.bind, Reporting.pure]

protected theorem pure_bind (a : α) (f : α → Reporting β) : pure a >>= f = f a := by
  simp [Bind.bind, Pure.pure, Reporting.bind, Reporting.pure]

protected theorem bind_assoc (x : Reporting α) (f : α → Reporting β) (g : β → Reporting γ) :
    x >>= f >>= g = x >>= fun a => f a >>= g := by
  obtain ⟨lookups, result⟩ := x
  cases result with
  | error e => rfl
  | ok a =>
      cases hf : (f a).result with
      | error e => simp [Bind.bind, Reporting.bind, hf]
      | ok b => simp [Bind.bind, Reporting.bind, hf]

instance : LawfulMonad Reporting :=
  LawfulMonad.mk' Reporting Reporting.id_map Reporting.pure_bind Reporting.bind_assoc

end Reporting

namespace Stacked

/-- A compilation does what one with the scopes as an argument does, and leaves the stack alone. -/
def Restores {α : Type} (x : Stacked α) (y : Scopes → Reporting α) : Prop :=
  ∀ scopes, x.run scopes = do return (← y scopes, scopes)

namespace Restores

variable {α β : Type}

protected theorem pure (a : α) : Restores (pure a) fun _ => pure a := by
  intro scopes
  rfl

protected theorem bind
    {x : Stacked α} {y : Scopes → Reporting α} {f : α → Stacked β} {g : α → Scopes → Reporting β}
    (hx : Restores x y) (hf : ∀ a, Restores (f a) (g a)) :
    Restores (x >>= f) fun scopes => y scopes >>= fun a => g a scopes := by
  intro scopes
  rw [StateT.run_bind, hx scopes]
  simp [hf _ scopes]

theorem within (y : Scopes → Reporting α) : Restores (within y) y := by
  intro scopes
  rfl

/-- What is on the stack meanwhile is taken off again. -/
theorem between
    {x : Stacked α} {y : Scopes → Reporting α} (names : List String) (k : α → β)
    (hx : Restores x y) :
    Restores (do push names; let a ← x; pop; return k a)
      fun scopes => do return k (← y (names :: scopes)) := by
  intro scopes
  simp [push, pop, hx (names :: scopes)]

end Restores

mutual

theorem restores_compileSection (options : Options) :
    ∀ p : Program,
      Restores (compileSection options p) fun scopes => Spec.compileSection options scopes p
  | { body, blockParams } =>
      .between blockParams (Section.mk blockParams) (restores_compileLines options body)

theorem restores_compileLines (options : Options) :
    ∀ body : List Statement,
      Restores (compileLines options body) fun scopes => Spec.compileLines options scopes body
  | [] => .pure []
  | s :: rest =>
      .bind (restores_compileStatement options s) fun line =>
        .bind (restores_compileLines options rest) fun lines => .pure (line.toList ++ lines)

theorem restores_compileStatement (options : Options) :
    ∀ s : Statement,
      Restores (compileStatement options s) fun scopes => Spec.compileStatement options scopes s
  | .content _ => .within _
  | .comment _ => .within _
  | .mustache _ _ _ => .within _
  | .inclusion _ _ _ _ => .within _
  | .block call main inverse tag => by
      refine .bind (.within _) fun opening => ?_
      refine .bind (restores_compileSection options main) fun main' => ?_
      refine .bind (restores_compileInverse options inverse) fun inverse' => ?_
      exact .pure (some (Line.block opening main' inverse' tag))

theorem restores_compileInverse (options : Options) :
    ∀ inverse : Option Program,
      Restores (compileInverse options inverse) fun scopes =>
        Spec.compileInverse options scopes inverse
  | none => .pure none
  | some p => .bind (restores_compileSection options p) fun inverse => .pure (some inverse)

end

end Stacked
end Spec
end TemplateModules
