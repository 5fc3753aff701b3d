import TemplateModules.Proofs.Spec.Compiled
import TemplateModules.Proofs.Spec.Scopes

/-!
# How paths are read

A path that starts at a block parameter is read from this parameter and not reported.  Every other
path is read from the data or from a context, and its first field is reported.  The head of a call
is such a path when it is the bare name of a block parameter.
-/

namespace TemplateModules

namespace Template

open Spec

/-- Whether a path starts at a block parameter in scope. -/
def Path.isBound (scopes : Scopes) (path : Path) : Bool :=
  !path.data && !path.anchored && path.depth == 0 && path.parts.head?.any (Scopes.binds scopes)

/-- What is reported for a path. -/
def Path.lookups (scopes : Scopes) (tag : Span) (path : Path) : List Lookup :=
  if path.isBound scopes then []
  else path.parts.head?.toList.map fun name =>
    { name, kind := if path.data then .data else .context, tag }

end Template

namespace Spec

open Template

/-- How the value of a path is read: a path that starts at a block parameter from this parameter,
down through the rest of its fields, and every other one from the data, from a context further out
or from the current one, down through all of its fields. -/
inductive ReadAs (scopes : Scopes) (path : Path) : Access → Prop
  | blockParam {name : String} {parts : List String} {level index : Nat}
      (hplain : path.data = false ∧ path.anchored = false ∧ path.depth = 0)
      (hparts : path.parts = name :: parts) (hparam : IsParam scopes name level index) :
      ReadAs scopes path { root := .blockParam level index, parts }
  | data (hdata : path.data = true) : ReadAs scopes path { root := .data, parts := path.parts }
  | outer (hdata : path.data = false) (hdepth : 0 < path.depth) :
      ReadAs scopes path { root := .parent path.depth, parts := path.parts }
  | context (hdata : path.data = false) (hdepth : path.depth = 0)
      (hfree : path.isBound scopes = false) :
      ReadAs scopes path { root := .context, parts := path.parts }

section

variable {scopes : Scopes} {tag : Span} {path : Path} {call : Call} {name : String}

/-! ## Paths -/

theorem Path.eq_of_simpleName? (h : path.simpleName? = some name) :
    path.data = false ∧ path.depth = 0 ∧ path.anchored = false ∧ path.parts = [name] := by
  unfold Path.simpleName? at h
  split at h
  · cases h
    exact ⟨rfl, rfl, rfl, rfl⟩
  · cases h

theorem isBound_iff (hdata : path.data = false) :
    path.isBound scopes = (scopes.resolve? path).isSome := by
  unfold Path.isBound Scopes.resolve?
  cases hanchored : path.anchored with
  | true => simp
  | false =>
      by_cases hdepth : path.depth = 0
      · cases hparts : path.parts with
        | nil => simp
        | cons name parts => simp [hdata, hdepth, isSome_blockParam?]
      · simp [hdepth]

/-- A path that is resolved starts at the name of a block parameter. -/
theorem exists_of_resolve? {level index : Nat} (h : scopes.resolve? path = some (level, index)) :
    path.anchored = false ∧ path.depth = 0 ∧
      ∃ name, path.parts = name :: path.parts.tail ∧ IsParam scopes name level index := by
  unfold Scopes.resolve? at h
  split at h
  · cases h
  · next hplain =>
    obtain ⟨name, hname, hparam⟩ := Option.bind_eq_some_iff.mp h
    obtain ⟨parts, hparts⟩ := List.head?_eq_some_iff.mp hname
    have hboth : path.anchored = false ∧ path.depth = 0 := by simpa using hplain
    refine ⟨hboth.1, hboth.2, name, ?_, blockParam?_eq_some_iff.mp hparam⟩
    rw [hparts, List.tail_cons]

theorem reportFirst_bind
    {α : Type} (path : Path) (kind : LookupKind) (tag : Span) (a : α) :
    (do reportFirst path kind tag; return a : Reporting α) =
      { lookups := path.parts.head?.toList.map fun name => { name, kind, tag },
        result := .ok a } := by
  unfold reportFirst
  cases path.parts <;> rfl

/-- A path that compiles is read as it should be, and its first field is reported unless it is a
block parameter. -/
theorem compilePath_reads {access : Access}
    (h : (compilePath scopes path tag).result = .ok access) :
    ReadAs scopes path access ∧
      (compilePath scopes path tag).lookups = path.lookups scopes tag := by
  unfold compilePath at h ⊢
  unfold Path.lookups
  cases hdata : path.data with
  | true =>
      have hfree : path.isBound scopes = false := by simp [Path.isBound, hdata]
      rw [hdata, if_pos rfl] at h
      rw [if_pos rfl, hfree]
      split at h
      · cases h
      · next hdepth =>
        rw [reportFirst_bind] at h
        rw [if_neg hdepth, reportFirst_bind]
        cases h
        exact ⟨.data hdata, rfl⟩
  | false =>
      have hbound : path.isBound scopes = (scopes.resolve? path).isSome := isBound_iff hdata
      rw [hdata, if_neg (by simp)] at h
      rw [if_neg (by simp), hbound]
      cases hresolve : scopes.resolve? path with
      | some place =>
          obtain ⟨level, index⟩ := place
          obtain ⟨hanchored, hdepth, name, hparts, hparam⟩ := exists_of_resolve? hresolve
          rw [hresolve] at h
          cases h
          exact ⟨.blockParam ⟨hdata, hanchored, hdepth⟩ hparts hparam, rfl⟩
      | none =>
          rw [hresolve, Option.isSome_none] at hbound
          simp only [hresolve, reportFirst_bind] at h
          simp only [reportFirst_bind]
          cases h
          refine ⟨?_, rfl⟩
          by_cases hdepth : 0 < path.depth
          · rw [if_pos hdepth]
            exact .outer hdata hdepth
          · rw [if_neg hdepth]
            exact .context hdata (by omega) hbound

/-- The value of a block parameter. -/
theorem compilePath_blockParam
    {level index : Nat} {access : Access} (hname : path.simpleName? = some name)
    (hscope : blockParam? name scopes = some (level, index))
    (h : (compilePath scopes path tag).result = .ok access) :
    access = { root := .blockParam level index, parts := [] } := by
  obtain ⟨hdata, hdepth, hanchored, hparts⟩ := Path.eq_of_simpleName? hname
  have hresolve : scopes.resolve? path = some (level, index) := by
    simp [Scopes.resolve?, hdepth, hanchored, hparts, hscope]
  simp only [compilePath, hdata, hresolve, Bool.false_eq_true, if_false] at h
  cases h
  rw [hparts, List.tail_cons]

/-! ## Heads of calls -/

theorem Call.exists_of_simpleName? (h : call.simpleName? = some name) :
    ∃ path, call.head = .path path ∧ path.simpleName? = some name := by
  unfold Call.simpleName? at h
  split at h
  · next path hhead => exact ⟨path, hhead, h⟩
  · cases h

/-- A head that is shadowed is the bare name of a block parameter. -/
theorem exists_of_shadowed? (h : shadowed? scopes call = some path) :
    call.head = .path path ∧ ∃ name level index, path.simpleName? = some name ∧
      blockParam? name scopes = some (level, index) := by
  unfold shadowed? at h
  split at h
  · next head hhead =>
    obtain ⟨⟨level, index⟩, hparam, rfl⟩ := Option.map_eq_some_iff.mp h
    obtain ⟨name, hname, hscope⟩ := Option.bind_eq_some_iff.mp hparam
    exact ⟨hhead, name, level, index, hname, hscope⟩
  · cases h

/-- The bare name of a head that is not shadowed is that of no block parameter. -/
theorem blockParam?_of_shadowed?
    (h : shadowed? scopes call = none) (hname : call.simpleName? = some name) :
    blockParam? name scopes = none := by
  obtain ⟨path, hhead, hpath⟩ := Call.exists_of_simpleName? hname
  rwa [shadowed?, hhead, Option.map_eq_none_iff, hpath, Option.bind_some] at h

end

end Spec
end TemplateModules
