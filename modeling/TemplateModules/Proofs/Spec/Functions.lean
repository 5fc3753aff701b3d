import Mathlib.Data.List.Forall2
import TemplateModules.Proofs.Spec.Table

/-!
# The functions of a template

Every section of a template becomes a function, and its statements become the lines of that
function, except for comments and empty content.  A region is the body of a section together with
what is in scope there.  The regions of a template, in the order of its functions, are read off its
tree, and so lexical scoping is seen in their definition: a section has the scopes of its block and
on top of them its own block parameters, and nothing of the section beside it.

The main result is about code as text: it holds one function for each region, and a statement of the
function for each statement of the region that appends to the buffer.  Whatever is known of single
lines is thereby known of the code of every template.
-/

namespace TemplateModules

namespace Template

open Spec

/-- The statements of a section, with the block parameters in scope there: first those of the
section itself, then those of the sections around it from the inside out. -/
structure Region where
  scopes : Scopes
  body : List Statement

/-- The statements of a region that append to the buffer. -/
def Region.appending (region : Region) : List Statement :=
  region.body.filter fun s => !s.isSilent

mutual

/-- The regions of a program: its own one, then those inside it. -/
def Program.regions (outer : Scopes) : Program → List Region
  | { body, blockParams } =>
      { scopes := blockParams :: outer, body } :: bodyRegions (blockParams :: outer) body

def bodyRegions (scopes : Scopes) : List Statement → List Region
  | [] => []
  | s :: rest => s.regions scopes ++ bodyRegions scopes rest

/-- The regions inside a statement.  Both sections of a block have the scopes of the block. -/
def Statement.regions (scopes : Scopes) : Statement → List Region
  | .block _ main inverse _ => main.regions scopes ++ inverseRegions scopes inverse
  | _ => []

def inverseRegions (scopes : Scopes) : Option Program → List Region
  | none => []
  | some inverse => inverse.regions scopes

end

theorem Program.regions_eq (outer : Scopes) (p : Program) :
    p.regions outer =
      { scopes := p.blockParams :: outer, body := p.body } ::
        bodyRegions (p.blockParams :: outer) p.body := by
  cases p
  rw [Program.regions]

mutual

/-- There is one region for each section. -/
theorem Program.map_body_regions (outer : Scopes) :
    ∀ p : Program, (p.regions outer).map Region.body = (p :: p.sections).map Program.body
  | { body, blockParams } => by
      rw [Program.regions, Program.sections, List.map_cons, List.map_cons,
        map_body_bodyRegions (blockParams :: outer) body]

theorem map_body_bodyRegions (scopes : Scopes) :
    ∀ body : List Statement,
      (bodyRegions scopes body).map Region.body = (bodySections body).map Program.body
  | [] => rfl
  | s :: rest => by
      rw [bodyRegions, bodySections, List.map_append, List.map_append,
        Statement.map_body_regions scopes s, map_body_bodyRegions scopes rest]

theorem Statement.map_body_regions (scopes : Scopes) :
    ∀ s : Statement, (s.regions scopes).map Region.body = s.sections.map Program.body
  | .content _ => rfl
  | .comment _ => rfl
  | .mustache _ _ _ => rfl
  | .inclusion _ _ _ _ => rfl
  | .block call main inverse tag => by
      rw [Statement.regions, Statement.sections, List.map_append, List.map_append,
        Program.map_body_regions scopes main, map_body_inverseRegions scopes inverse]

theorem map_body_inverseRegions (scopes : Scopes) :
    ∀ inverse : Option Program,
      (inverseRegions scopes inverse).map Region.body = (inverseSections inverse).map Program.body
  | none => rfl
  | some inverse => by
      rw [inverseRegions, inverseSections, Program.map_body_regions scopes inverse]

end

mutual

/-- What is in scope in a region is given by the sections around it, or was in scope before. -/
theorem Program.mem_scopes_regions (outer : Scopes) :
    ∀ p : Program, ∀ region ∈ p.regions outer, ∀ names ∈ region.scopes,
      names ∈ outer ∨ ∃ q ∈ p :: p.sections, q.blockParams = names
  | { body, blockParams }, region, hregion, names, hnames => by
      have hinside :
          names ∈ blockParams :: outer ∨ ∃ q ∈ bodySections body, q.blockParams = names := by
        rw [Program.regions, List.mem_cons] at hregion
        rcases hregion with rfl | hregion
        · exact Or.inl hnames
        · exact mem_scopes_bodyRegions (blockParams :: outer) body region hregion names hnames
      rw [Program.sections]
      rcases hinside with hmem | ⟨q, hq, hparams⟩
      · rcases List.mem_cons.mp hmem with rfl | hmem
        · exact Or.inr ⟨_, List.mem_cons_self .., rfl⟩
        · exact Or.inl hmem
      · exact Or.inr ⟨q, List.mem_cons_of_mem _ hq, hparams⟩

theorem mem_scopes_bodyRegions (scopes : Scopes) :
    ∀ body : List Statement, ∀ region ∈ bodyRegions scopes body, ∀ names ∈ region.scopes,
      names ∈ scopes ∨ ∃ q ∈ bodySections body, q.blockParams = names
  | [], region, hregion, _, _ => absurd hregion List.not_mem_nil
  | s :: rest, region, hregion, names, hnames => by
      rw [bodyRegions, List.mem_append] at hregion
      simp only [bodySections, List.mem_append]
      rcases hregion with hregion | hregion
      · exact (Statement.mem_scopes_regions scopes s region hregion names hnames).imp_right
          fun ⟨q, hq, hparams⟩ => ⟨q, Or.inl hq, hparams⟩
      · exact (mem_scopes_bodyRegions scopes rest region hregion names hnames).imp_right
          fun ⟨q, hq, hparams⟩ => ⟨q, Or.inr hq, hparams⟩

theorem Statement.mem_scopes_regions (scopes : Scopes) :
    ∀ s : Statement, ∀ region ∈ s.regions scopes, ∀ names ∈ region.scopes,
      names ∈ scopes ∨ ∃ q ∈ s.sections, q.blockParams = names
  | .content _, region, hregion, _, _ => absurd hregion List.not_mem_nil
  | .comment _, region, hregion, _, _ => absurd hregion List.not_mem_nil
  | .mustache _ _ _, region, hregion, _, _ => absurd hregion List.not_mem_nil
  | .inclusion _ _ _ _, region, hregion, _, _ => absurd hregion List.not_mem_nil
  | .block call main inverse tag, region, hregion, names, hnames => by
      rw [Statement.regions, List.mem_append] at hregion
      simp only [Statement.sections, List.mem_append]
      rcases hregion with hregion | hregion
      · exact (Program.mem_scopes_regions scopes main region hregion names hnames).imp_right
          fun ⟨q, hq, hparams⟩ => ⟨q, Or.inl hq, hparams⟩
      · exact (mem_scopes_inverseRegions scopes inverse region hregion names hnames).imp_right
          fun ⟨q, hq, hparams⟩ => ⟨q, Or.inr hq, hparams⟩

theorem mem_scopes_inverseRegions (scopes : Scopes) :
    ∀ inverse : Option Program, ∀ region ∈ inverseRegions scopes inverse, ∀ names ∈ region.scopes,
      names ∈ scopes ∨ ∃ q ∈ inverseSections inverse, q.blockParams = names
  | none, _, hregion, _, _ => absurd hregion List.not_mem_nil
  | some inverse, region, hregion, names, hnames =>
      Program.mem_scopes_regions scopes inverse region hregion names hnames

end

end Template

namespace Spec

open Script Template

/-- The line that a statement becomes where certain block parameters are in scope.  The head of a
block and its arguments have the same scopes as every other statement. -/
inductive Becomes (options : Options) (scopes : Scopes) : Statement → Line SectionRef → Prop
  | text {text : String} (hnonempty : text.isEmpty = false) :
      Becomes options scopes (.content text) (.text text)
  | mustache {call : Call} {escaped : Bool} {shown : Shown} {tag : Span}
      (hshown : (compileMustache options scopes tag call).result = .ok shown) :
      Becomes options scopes (.mustache call escaped tag)
        (.mustache (escaped && !options.noEscape) shown tag)
  | block {call : Call} {main : Program} {inverse : Option Program} {opening : Opening}
      {tag : Span} {ref : SectionRef} {other : Option SectionRef}
      (hopening : (compileOpening options scopes tag call).result = .ok opening) :
      Becomes options scopes (.block call main inverse tag) (.block opening ref other tag)
  | inclusion {name : String} {context : Option Expr} {hash : List (String × Expr)}
      {value : Option Value} {fields : List (String × Value)} {tag : Span}
      (hvalue : (compileContext options scopes tag context).result = .ok value)
      (hfields : (compileHash options scopes tag hash).result = .ok fields) :
      Becomes options scopes (.inclusion name context hash tag) (.inclusion name value fields tag)

/-- A function has one line for each statement of a region that appends to the buffer, in order. -/
def Region.IsCompiled (options : Options) (region : Region) (f : Function) : Prop :=
  List.Forall₂ (Becomes options region.scopes) region.appending f.lines

section

variable {options : Options}

mutual

theorem isCompiled_compileSection :
    ∀ (scopes : Scopes) (p : Program) (s : Section) (n : Nat),
      (compileSection options scopes p).result = .ok s →
        List.Forall₂ (Region.IsCompiled options) (p.regions scopes) (numberSection n s).2
  | scopes, { body, blockParams }, s, n, h => by
      obtain ⟨lines, rfl, hlines⟩ := exists_of_compileSection h
      obtain ⟨hown, hinside⟩ :=
        isCompiled_compileLines (blockParams :: scopes) body lines (n + 1) hlines
      rw [Program.regions]
      exact .cons hown hinside

/-- The lines of statements, and the functions of the regions inside them. -/
theorem isCompiled_compileLines :
    ∀ (scopes : Scopes) (body : List Statement) (lines : List (Line Section)) (n : Nat),
      (compileLines options scopes body).result = .ok lines →
        Region.IsCompiled options { scopes, body } { lines := (numberLines n lines).1 } ∧
          List.Forall₂ (Region.IsCompiled options) (bodyRegions scopes body)
            (numberLines n lines).2
  | scopes, [], lines, n, h => by
      cases h
      exact ⟨.nil, .nil⟩
  | scopes, s :: rest, lines, n, h => by
      obtain ⟨line?, later, rfl, hline, hlater⟩ := exists_of_compileLines_cons h
      obtain ⟨hown, hinside⟩ := isCompiled_compileStatement scopes s line? n hline
      obtain ⟨hrest, hbehind⟩ := isCompiled_compileLines scopes rest later
        (n + (numberLines n line?.toList).2.length) hlater
      rw [numberLines_append, bodyRegions]
      refine ⟨?_, List.rel_append hinside hbehind⟩
      have hfilter : Region.appending { scopes, body := s :: rest } =
          Region.appending { scopes, body := [s] } ++ Region.appending { scopes, body := rest } := by
        rw [Region.appending, ← List.singleton_append, List.filter_append]
        rfl
      rw [Region.IsCompiled, hfilter]
      exact List.rel_append hown hrest

theorem isCompiled_compileStatement :
    ∀ (scopes : Scopes) (s : Statement) (line? : Option (Line Section)) (n : Nat),
      (compileStatement options scopes s).result = .ok line? →
        Region.IsCompiled options { scopes, body := [s] }
            { lines := (numberLines n line?.toList).1 } ∧
          List.Forall₂ (Region.IsCompiled options) (s.regions scopes)
            (numberLines n line?.toList).2
  | scopes, .content text, line?, n, h => by
      cases h
      refine ⟨?_, ?_⟩
      · cases htext : text.isEmpty with
        | true => simp [Region.IsCompiled, Region.appending, Statement.isSilent, htext, numberLines]
        | false =>
            simp [Region.IsCompiled, Region.appending, Statement.isSilent, htext, numberLines,
              numberLine, Becomes.text htext]
      · cases htext : text.isEmpty with
        | true => exact .nil
        | false => exact .nil
  | scopes, .comment text, line?, n, h => by
      cases h
      exact ⟨.nil, .nil⟩
  | scopes, .mustache call escaped tag, line?, n, h => by
      obtain ⟨shown, hshown, h⟩ := Reporting.exists_of_bind h
      cases h
      exact ⟨.cons (.mustache hshown) .nil, .nil⟩
  | scopes, .inclusion name context hash tag, line?, n, h => by
      obtain ⟨-, -, h⟩ := Reporting.exists_of_bind h
      obtain ⟨value, hvalue, h⟩ := Reporting.exists_of_bind h
      obtain ⟨fields, hfields, h⟩ := Reporting.exists_of_bind h
      cases h
      exact ⟨.cons (.inclusion hvalue hfields) .nil, .nil⟩
  | scopes, .block call main inverse tag, line?, n, h => by
      obtain ⟨opening, hopening, h⟩ := Reporting.exists_of_bind h
      obtain ⟨main', hmain, h⟩ := Reporting.exists_of_bind h
      obtain ⟨inverse', hinverse, h⟩ := Reporting.exists_of_bind h
      cases h
      have hinside := isCompiled_compileSection scopes main main' n hmain
      have hbeside := isCompiled_compileInverse scopes inverse inverse'
        (n + (numberSection n main').2.length) hinverse
      refine ⟨.cons (.block hopening) .nil, ?_⟩
      simp only [Statement.regions, Option.toList_some, numberLines, numberLine, List.append_nil]
      exact List.rel_append hinside hbeside

theorem isCompiled_compileInverse :
    ∀ (scopes : Scopes) (inverse : Option Program) (inverse' : Option Section) (n : Nat),
      (compileInverse options scopes inverse).result = .ok inverse' →
        List.Forall₂ (Region.IsCompiled options) (inverseRegions scopes inverse)
          (numberInverse n inverse').2
  | scopes, none, inverse', n, h => by
      cases h
      exact .nil
  | scopes, some inverse, inverse', n, h => by
      obtain ⟨compiled, hcompiled, h⟩ := Reporting.exists_of_bind h
      cases h
      exact isCompiled_compileSection scopes inverse compiled n hcompiled

end

/-- The functions of a template are those of its regions, one for each and in order. -/
theorem forall₂_regions
    {scopes : Scopes} {program : Program} {main : Section}
    (h : (compileSection options scopes program).result = .ok main) :
    List.Forall₂ (Region.IsCompiled options) (program.regions scopes) main.layout.functions := by
  obtain ⟨lines, rfl, hlines⟩ := exists_of_compileSection h
  obtain ⟨hown, hinside⟩ :=
    isCompiled_compileLines (program.blockParams :: scopes) program.body lines 1 hlines
  rw [program.regions_eq]
  exact .cons hown hinside

theorem exists_of_forall₂_of_mem
    {α β : Type} {R : α → β → Prop} {as : List α} {bs : List β} (h : List.Forall₂ R as bs)
    {b : β} (hb : b ∈ bs) :
    ∃ a ∈ as, R a b := by
  induction h with
  | nil => cases hb
  | cons hfirst _ ih =>
      rcases List.mem_cons.mp hb with rfl | hb
      · exact ⟨_, List.mem_cons_self .., hfirst⟩
      · obtain ⟨a, ha, hab⟩ := ih hb
        exact ⟨a, List.mem_cons_of_mem _ ha, hab⟩

/-- Every line of a function comes from a statement of a region. -/
theorem exists_becomes
    {regions : List Region} {fs : List Function}
    (h : List.Forall₂ (Region.IsCompiled options) regions fs)
    {f : Function} (hf : f ∈ fs) {line : Line SectionRef} (hline : line ∈ f.lines) :
    ∃ region ∈ regions, ∃ s, Becomes options region.scopes s line := by
  obtain ⟨region, hregion, hcompiled⟩ := exists_of_forall₂_of_mem h hf
  obtain ⟨s, -, hs⟩ := exists_of_forall₂_of_mem hcompiled hline
  exact ⟨region, hregion, s, hs⟩

end

/-! ## Functions as text -/

/-- Code is an object, which holds functions with given statements, and besides them the revision of
the compiler and what the code needs from the runtime. -/
def HasFunctions (ms : List Mark) (functions : List (List (List Mark))) : Prop :=
  ∃ main children flags,
    IsObject ms
      (compilerField :: { key := "main".toList, value := main } ::
        (numberedFields 1 children ++ flags)) ∧
    (∀ flag ∈ flags, ∃ key ∈ flagKeys, flag.key = key.toList) ∧
    List.Forall₂ IsFunction (main :: children) functions

theorem Layout.exists_hasFunctions (strict : Bool) (layout : Layout) :
    ∃ ms, scan (layout.code strict).toList = some ms ∧ HasFunctions ms layout.statements := by
  obtain ⟨ms, hscan, hobject⟩ := layout.exists_fields strict
  exact ⟨ms, hscan, _, _, _, hobject, fun flag hflag => (layout.flagFields_spec flag hflag).1,
    layout.forall_isFunction strict⟩

/-- The statements of functions are related to the statements of regions in a certain way. -/
def RelatesStatements
    (R : Scopes → Statement → List Mark → Prop) (regions : List Region)
    (functions : List (List (List Mark))) : Prop :=
  List.Forall₂
    (fun region statements => List.Forall₂ (R region.scopes) region.appending statements)
    regions functions

/-- The code of a template that compiles has one function for each region, and what holds of a line
holds of every statement in them. -/
theorem exists_functions_of_precompile
    {options : Options} {source : String} {artifact : Artifact}
    {R : Scopes → Statement → List Mark → Prop}
    (hR : ∀ scopes s line, Becomes options scopes s line → R scopes s line.marks)
    (h : (precompile options source).result = .ok artifact) :
    ∃ program ms functions, parse source = .ok program ∧ scan artifact.code.toList = some ms ∧
      HasFunctions ms functions ∧ RelatesStatements R (program.regions []) functions := by
  obtain ⟨program, main, hparse, hmain, rfl⟩ := exists_section_of_precompile h
  obtain ⟨ms, hscan, hfunctions⟩ := main.layout.exists_hasFunctions options.strict
  refine ⟨program, ms, main.layout.statements, hparse, hscan, hfunctions, ?_⟩
  rw [RelatesStatements, Layout.statements, List.forall₂_map_right_iff]
  refine (forall₂_regions hmain).imp ?_
  intro region f hf
  rw [List.forall₂_map_right_iff]
  exact hf.imp (hR region.scopes)

end Spec
end TemplateModules
