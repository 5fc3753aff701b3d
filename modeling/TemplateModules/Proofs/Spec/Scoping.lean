import TemplateModules.Proofs.Spec.Uses
import TemplateModules.Proofs.Template.Statements

/-!
# Block parameters are lexically scoped

The code of a template reads a name that a section around it declares from the block parameters, by
the number of sections in between and by its place in the list of the section that declares it.
Such a name is not reported.  Every other value is read from the data or from a context.  What is in
scope at a place is said by the regions of the template: the head of a block and its arguments stand
in the section around the block, and of its two sections at most one gives names to block
parameters, which the other one does not see.
-/

namespace TemplateModules

namespace Spec

open Script Template

/-! ## The accesses of a statement -/

/-- A statement of generated code reads the values that a statement of a template uses where certain
block parameters are in scope. -/
structure ReadsValues
    (options : Options) (scopes : Scopes) (s : Statement) (statement : List Mark)
    (accesses : List Access) : Prop where
  /-- There is one access for each path, in order, and it reads the value of the path. -/
  readAs : List.Forall₂ (ReadAs scopes) ((s.uses options scopes).filterMap Use.path?) accesses
  /-- The accesses stand in the statement one behind another. -/
  inTurn : InTurn (accesses.map Access.marks) statement
  /-- Nothing else in the statement reads a block parameter. -/
  blockParam : ∀ level index, (Mention.blockParam level index).Occurs statement ↔
    ∃ access ∈ accesses, access.root = .blockParam level index
  /-- Nothing else in the statement reads an outer context. -/
  outer : ∀ depth, (Mention.outer depth).Occurs statement ↔
    ∃ access ∈ accesses, access.root = .parent depth
  /-- What starts like a block parameter is one as a whole. -/
  whole : ∀ rest, rest <:+ statement → chars MentionKind.blockParam.head <+: rest →
    ∃ level index, (Mention.blockParam level index).marks <+: rest

theorem occurs_root_iff
    (line : Line SectionRef) {m : Mention} (hroot : m.isRoot = true) :
    m.Occurs line.marks ↔ ∃ access ∈ line.accesses, m ∈ access.root.mentions := by
  have hsections : m ∉ line.sections.map Mention.child := by
    intro hmem
    obtain ⟨ref, -, rfl⟩ := List.mem_map.mp hmem
    cases hroot
  rw [line.mentions_marks.1, List.mem_append, or_iff_left hsections, line.mem_mentions_iff hroot]

theorem Becomes.readsValues
    {options : Options} {scopes : Scopes} {s : Statement} {line : Line SectionRef}
    (h : Becomes options scopes s line) :
    ReadsValues options scopes s line.marks line.accesses where
  readAs := h.readAs
  inTurn := line.inTurn_marks
  blockParam := by
    intro level index
    simp only [occurs_root_iff line (m := .blockParam level index) rfl,
      Root.blockParam_mem_mentions]
  outer := by
    intro depth
    simp only [occurs_root_iff line (m := .outer depth) rfl, Root.outer_mem_mentions]
  whole := by
    intro rest hrest hhead
    obtain ⟨m, hkind, hm⟩ := line.mentions_marks.2 rest hrest .blockParam hhead
    cases m with
    | blockParam level index => exact ⟨level, index, hm⟩
    | helper name => cases hkind
    | inclusion name => cases hkind
    | child ref => cases hkind
    | outer depth => cases hkind
    | invocation => cases hkind

/-! ## Templates -/

/-- Code reads the values of paths as the scopes of a program say, and names of block parameters are
not reported. -/
structure LexicallyScoped
    (options : Options) (program : Program) (ms : List Mark) (lookups : List Lookup) : Prop where
  /-- Each statement reads its values where the block parameters of the sections around it, and no
  others, are in scope. -/
  reads : ∃ functions, HasFunctions ms functions ∧
    RelatesStatements
      (fun scopes s statement => ∃ accesses, ReadsValues options scopes s statement accesses)
      (program.regions []) functions
  /-- What is reported are the names of helpers and partials, and the first fields of paths that do
  not start at a block parameter. -/
  reported : lookups = program.lookups options []
  /-- No section sees names of the section beside it. -/
  apart : ∀ p ∈ program :: program.sections, ∀ s ∈ p.body, s.NamesOnce

/-- The code of every template that compiles reads the values of paths by lexical scoping.  A
compiler that keeps the scopes on a stack does the same, and leaves the stack as it was after any
program. -/
theorem code_scoped
    {options : Options} {source : String} {artifact : Artifact}
    (h : (precompile options source).result = .ok artifact) :
    (∃ program ms, parse source = .ok program ∧ scan artifact.code.toList = some ms ∧
      LexicallyScoped options program ms (precompile options source).lookups) ∧
    ∀ p, Stacked.Restores (Stacked.compileSection options p) fun scopes =>
      compileSection options scopes p := by
  obtain ⟨program, ms, functions, hparse, hscan, hfunctions, hreads⟩ :=
    exists_functions_of_precompile
      (R := fun scopes s statement => ∃ accesses, ReadsValues options scopes s statement accesses)
      (fun _ _ line hline => ⟨line.accesses, hline.readsValues⟩) h
  have hscoped : LexicallyScoped options program ms (precompile options source).lookups :=
    ⟨⟨functions, hfunctions, hreads⟩, lookups_of_precompile hparse h, namesOnce_of_parse hparse⟩
  exact ⟨⟨program, ms, hparse, hscan, hscoped⟩, Stacked.restores_compileSection options⟩

/-- Two loops inside each other with a name in common, and an alternative of the inner one. -/
def shadowedRows : String :=
  "\x7b\x7b#each rows as |row i|\x7d\x7d\x7b\x7b#each row.cells as |cell i|\x7d\x7d" ++
    "\x7b\x7bcell.text\x7d\x7d \x7b\x7bi\x7d\x7d \x7b\x7brow.name\x7d\x7d" ++
    "\x7b\x7belse\x7d\x7d\x7b\x7bi\x7d\x7d\x7b\x7bcell\x7d\x7d" ++
    "\x7b\x7b/each\x7d\x7d\x7b\x7b/each\x7d\x7d"

theorem shadowedRows_scoped :
    ∃ artifact, (precompile builtinOnly shadowedRows).result = .ok artifact ∧
      (∃ program ms, parse shadowedRows = .ok program ∧ scan artifact.code.toList = some ms ∧
        LexicallyScoped builtinOnly program ms (precompile builtinOnly shadowedRows).lookups) ∧
      ∀ p, Stacked.Restores (Stacked.compileSection builtinOnly p) fun scopes =>
        compileSection builtinOnly scopes p :=
  (exists_ok_of_isOk (by decide +kernel)).imp fun _ hartifact => ⟨hartifact, code_scoped hartifact⟩

/-- What is in scope in the main section, in both loops and in the alternative of the inner one. -/
example :
    ((parse shadowedRows).toOption.map fun p => (p.regions []).map Region.scopes) =
      some [[[]], [["row", "i"], []], [["cell", "i"], ["row", "i"], []], [[], ["row", "i"], []]] := by
  decide +kernel

end Spec
end TemplateModules
