import TemplateModules.Proofs.Module.Imports
import TemplateModules.Proofs.Spec.ReportOrder

/-!
# The order of imports

The imports of a module are in the order of the reports of its template.  Where this is the order of
the source, an import stands behind another one only if its name is referred to later for the first
time.
-/

namespace TemplateModules

namespace Module

open Spec Template

/-- In front of each reference of a kind to one name, or in the same tag, there is one to another
name. -/
def ReferredBefore (kind : LookupKind) (lookups : List Lookup) (name other : String) : Prop :=
  ∀ l ∈ lookups, l.kind = kind → l.name = other →
    ∃ m ∈ lookups, m.kind = kind ∧ m.name = name ∧ m.tag.start ≤ l.tag.start

/-- A last report is made behind those of all names that were reported before. -/
theorem ReferredBefore.concat
    {kind : LookupKind} {lookups : List Lookup} {l : Lookup} {name other : String}
    (h : ReferredBefore kind lookups name other) (horder : InSourceOrder (lookups ++ [l]))
    (hname : name ∈ namesOf kind lookups) :
    ReferredBefore kind (lookups ++ [l]) name other := by
  obtain ⟨-, -, hlast⟩ := List.pairwise_append.mp horder
  intro m hm hkind hother
  rcases List.mem_append.mp hm with hm | hm
  · obtain ⟨first, hfirst, hspec⟩ := h m hm hkind hother
    exact ⟨first, List.mem_append_left _ hfirst, hspec⟩
  · obtain rfl := List.mem_singleton.mp hm
    obtain ⟨first, hfirst, hfirstKind, hfirstName⟩ := mem_namesOf.mp hname
    exact ⟨first, List.mem_append_left _ hfirst, hfirstKind, hfirstName,
      hlast first hfirst m List.mem_cons_self⟩

/-- Where reports are in the order of the source, names are in the order of their first
references. -/
theorem pairwise_referredBefore
    {lookups : List Lookup} (h : InSourceOrder lookups) (kind : LookupKind) :
    (namesOf kind lookups).eraseDups.Pairwise (ReferredBefore kind lookups) := by
  induction lookups using List.reverseRecOn with
  | nil => exact .nil
  | append_singleton lookups l ih =>
      have hold : (namesOf kind lookups).eraseDups.Pairwise
          (ReferredBefore kind (lookups ++ [l])) := by
        refine (ih (List.pairwise_append.mp h).1).imp_of_mem ?_
        intro name other hname _ hreferred
        exact hreferred.concat h (List.mem_eraseDups.mp hname)
      by_cases hkind : l.kind = kind
      · have hnames : namesOf kind (lookups ++ [l]) = namesOf kind lookups ++ [l.name] := by
          simp [namesOf, hkind]
        rw [hnames, eraseDups_concat, References.addName]
        split
        · exact hold
        · next hnew =>
          -- The name is new, so there is no reference to it among the reports before.
          have hnone (name : String) : ReferredBefore kind lookups name l.name := by
            intro m hm hmkind hmname
            exact absurd (mem_namesOf.mpr ⟨m, hm, hmkind, hmname⟩) (by simpa using hnew)
          refine List.pairwise_append.mpr ⟨hold, List.pairwise_singleton .., ?_⟩
          intro name hname other hother
          rw [List.mem_singleton.mp hother]
          exact (hnone name).concat h (List.mem_eraseDups.mp hname)
      · have hnames : namesOf kind (lookups ++ [l]) = namesOf kind lookups := by
          simp [namesOf, hkind]
        rw [hnames]
        exact hold

/-- Imports are in the order of the first references to their names. -/
def FollowReferences (kind : LookupKind) (lookups : List Lookup) (imports : List Import) : Prop :=
  imports.Pairwise fun i j => ReferredBefore kind lookups i.name j.name

theorem Imported.followReferences
    {table : Fields String} {kind : LookupKind} {lookups : List Lookup} {imports : List Import}
    (himported : Imported table (namesOf kind lookups) imports) (h : InSourceOrder lookups) :
    FollowReferences kind lookups imports := by
  have hnames := (pairwise_referredBefore h kind).filter fun name => name ∈ table.keys
  rw [← himported.names_eq, List.pairwise_map] at hnames
  exact hnames

/-- The names that a template reports, and the imports of its module, by the order of the source. -/
structure ReportOrder
    (options : Options) (source : String) (program : Program) (lookups : List Lookup) : Prop where
  /-- Names are reported in the order of the tree. -/
  lookups_eq : lookups = program.lookups options []
  /-- This is the order of the source just where no sections that are exchanged both report
  names. -/
  iff : InSourceOrder lookups ↔ OneSidedIn options source.toList (program.regions [])
  /-- Imports are in the order of the reports. -/
  imports : ∀ table : ExtensionTable,
    Imported table.helpers (namesOf .helper lookups) (importsOf (.ofLookups lookups) table).helpers ∧
      Imported table.partials (namesOf .inclusion lookups)
        (importsOf (.ofLookups lookups) table).partials
  /-- Where reports are in the order of the source, imports are in the order of first references. -/
  follow : InSourceOrder lookups → ∀ table : ExtensionTable,
    FollowReferences .helper lookups (importsOf (.ofLookups lookups) table).helpers ∧
      FollowReferences .inclusion lookups (importsOf (.ofLookups lookups) table).partials

/-- Every template that compiles reports names in the order of its source, unless it has a block for
an absent value with names in both of its sections. -/
theorem reportOrder_of_precompile
    {options : Options} {source : String} {artifact : Artifact}
    (h : (precompile options source).result = .ok artifact) :
    ∃ program, parse source = .ok program ∧
      ReportOrder options source program (precompile options source).lookups := by
  obtain ⟨program, -, hparse, -⟩ := exists_section_of_precompile h
  have hlookups := lookups_of_precompile hparse h
  refine ⟨program, hparse, hlookups, ?_, ?_, ?_⟩
  · rw [hlookups]
    exact inSourceOrder_lookups_iff hparse options
  · exact fun table => imported_importsOf _ table
  · intro horder table
    obtain ⟨hhelpers, hpartials⟩ := imported_importsOf (precompile options source).lookups table
    exact ⟨hhelpers.followReferences horder, hpartials.followReferences horder⟩

/-- A block with a chained alternative, and a block for an absent value with names in one
section. -/
def oneSidedPage : String :=
  "\x7b\x7b#if a\x7d\x7d\x7b\x7b> b\x7d\x7d\x7b\x7belse if c\x7d\x7d\x7b\x7b> d\x7d\x7d" ++
    "\x7b\x7b/if\x7d\x7d\x7b\x7b^e\x7d\x7d\x7b\x7b> f\x7d\x7d\x7b\x7belse\x7d\x7dg\x7b\x7b/e\x7d\x7d"

theorem oneSidedPage_reportOrder :
    ∃ artifact, (precompile builtinOnly oneSidedPage).result = .ok artifact ∧
      ∃ program, parse oneSidedPage = .ok program ∧
        ReportOrder builtinOnly oneSidedPage program (precompile builtinOnly oneSidedPage).lookups :=
  (exists_ok_of_isOk (by decide +kernel)).imp fun _ hartifact =>
    ⟨hartifact, reportOrder_of_precompile hartifact⟩

/-- A block for an absent value with a name in each of its sections. -/
def exchangedPage : String :=
  "\x7b\x7b^a\x7d\x7d\x7b\x7b> b\x7d\x7d\x7b\x7belse\x7d\x7d\x7b\x7b> c\x7d\x7d\x7b\x7b/a\x7d\x7d"

/-- The name in its second section is reported and imported in front of that in the first one. -/
theorem exchangedPage_not_inSourceOrder :
    (precompile builtinOnly exchangedPage).result.isOk = true ∧
      ¬InSourceOrder (precompile builtinOnly exchangedPage).lookups ∧
      (importsOf (.ofLookups (precompile builtinOnly exchangedPage).lookups)
        { helpers := [], partials := [("b", "./b"), ("c", "./c")] }).partials.map Import.name =
          ["c", "b"] := by
  decide +kernel

end Module
end TemplateModules
