import Mathlib.Data.List.Induction
import Mathlib.Data.List.Nodup
import TemplateModules.Proofs.Module.Binding

/-!
# Which names a module imports

A module imports the names that compilation reports and that a table has, each once, in the order
of the first reports.  Local names play no part in this.
-/

namespace TemplateModules

namespace Fields

theorem isSome_get? {α : Type} (fields : Fields α) (key : String) :
    (fields.get? key).isSome = true ↔ key ∈ fields.keys := by
  induction fields with
  | nil => simp [get?, keys]
  | cons field fields ih =>
      obtain ⟨k, v⟩ := field
      by_cases hk : k = key
      · simp [get?, keys, hk]
      · simpa [get?, keys, hk, Ne.symm hk] using ih

end Fields

namespace Module

open Spec

/-! ## References -/

/-- The names that lookups of a kind report, in their order. -/
def namesOf (kind : LookupKind) (lookups : List Lookup) : List String :=
  (lookups.filter (·.kind = kind)).map Lookup.name

theorem mem_namesOf {kind : LookupKind} {lookups : List Lookup} {name : String} :
    name ∈ namesOf kind lookups ↔ ∃ l ∈ lookups, l.kind = kind ∧ l.name = name := by
  simp [namesOf, and_assoc]

theorem eraseDups_concat (names : List String) (name : String) :
    (names ++ [name]).eraseDups = References.addName names.eraseDups name := by
  rw [List.eraseDups_append, References.addName]
  by_cases hname : name ∈ names
  · simp [hname, List.removeAll]
  · simp [hname, List.removeAll, List.eraseDups_cons]

/-- References are the reported names without repetitions. -/
theorem ofLookups_eq (lookups : List Lookup) :
    References.ofLookups lookups =
      { helpers := (namesOf .helper lookups).eraseDups,
        partials := (namesOf .inclusion lookups).eraseDups } := by
  induction lookups using List.reverseRecOn with
  | nil => rfl
  | append_singleton lookups l ih =>
      have hstep : References.ofLookups (lookups ++ [l]) =
          (References.ofLookups lookups).add l.name l.kind := by
        simp [References.ofLookups]
      obtain ⟨name, kind, tag⟩ := l
      rw [hstep, ih]
      cases kind <;> simp [References.add, namesOf, eraseDups_concat]

theorem nodup_eraseDups (names : List String) : names.eraseDups.Nodup := by
  induction names using List.reverseRecOn with
  | nil => simp
  | append_singleton names name ih =>
      rw [eraseDups_concat, References.addName]
      split
      · exact ih
      · next hnew =>
        have hnew' : name ∉ names.eraseDups := by simpa using hnew
        exact List.nodup_append.mpr ⟨ih, by simp, by
          rintro a ha b hb rfl
          exact hnew' (List.mem_singleton.mp hb ▸ ha)⟩

/-! ## Imports -/

/-- Names are imported just if the table has them. -/
theorem map_name_matchNames
    (kind : ExtensionKind) (table : Fields String) (used names : List String) :
    (matchNames kind table used names).1.map Import.name =
      names.filter fun name => (table.get? name).isSome := by
  induction names generalizing used with
  | nil => rfl
  | cons name names ih =>
      cases hname : table.get? name with
      | none => simp [matchNames, hname, ih]
      | some specifier => simp [matchNames, hname, ih]

theorem filter_isSome_get? (table : Fields String) (names : List String) :
    (names.filter fun name => (table.get? name).isSome) =
      names.filter fun name => name ∈ table.keys := by
  refine List.filter_congr fun name _ => ?_
  rw [Bool.eq_iff_iff, table.isSome_get? name, decide_eq_true_iff]

/-- Imports are the reported names that a table has: each once, in the order of the first
reports, from the modules that the table says. -/
structure Imported (table : Fields String) (names : List String) (imports : List Import) : Prop where
  names_eq : imports.map Import.name = names.eraseDups.filter fun name => name ∈ table.keys
  nodup : (imports.map Import.name).Nodup
  specifier : ∀ i ∈ imports, table.get? i.name = some i.specifier

theorem imported_matchNames
    (kind : ExtensionKind) (table : Fields String) (used names : List String) :
    Imported table names (matchNames kind table used names.eraseDups).1 := by
  have hnames := map_name_matchNames kind table used names.eraseDups
  constructor
  · rw [hnames, filter_isSome_get?]
  · rw [hnames]
    exact (nodup_eraseDups names).filter _
  · exact fun i hi => (spec_of_mem_matchNames hi).1

theorem Imported.mem_iff
    {table : Fields String} {names : List String} {imports : List Import}
    (h : Imported table names imports) (name : String) :
    name ∈ imports.map Import.name ↔ name ∈ names ∧ name ∈ table.keys := by
  rw [h.names_eq]
  simp

theorem imported_importsOf (lookups : List Lookup) (table : ExtensionTable) :
    Imported table.helpers (namesOf .helper lookups)
        (importsOf (.ofLookups lookups) table).helpers ∧
      Imported table.partials (namesOf .inclusion lookups)
        (importsOf (.ofLookups lookups) table).partials := by
  rw [ofLookups_eq]
  exact ⟨imported_matchNames .., imported_matchNames ..⟩

end Module
end TemplateModules
