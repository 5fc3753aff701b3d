import Mathlib.Data.Set.Card
import Mathlib.Tactic.Common
import TemplateModules.Files.Map

/-!
# Lookups in maps from paths

What is looked up after a change of a map, for all spellings of a path alike.  A map has each path
once, so that its size is the number of different paths that have values.
-/

namespace TemplateModules

namespace FilePath

theorem same_iff {p q : FilePath} : p.same q = true ↔ p.components = q.components := by
  simp [same]

@[simp]
theorem same_self (p : FilePath) : p.same p = true :=
  same_iff.mpr rfl

theorem same_symm {p q : FilePath} (h : p.same q = true) : q.same p = true := by
  rw [same_iff] at h ⊢
  exact h.symm

/-- Paths that are spellings of one path are spellings of the same others. -/
theorem same_congr {p q : FilePath} (h : p.same q = true) (r : FilePath) :
    p.same r = q.same r := by
  rw [same, same, same_iff.mp h]

/-- A spelling of one of two different paths is none of the other. -/
theorem not_same_of_same {p q r : FilePath} (h : ¬p.same q = true) (hr : p.same r = true) :
    ¬q.same r = true := by
  intro hqr
  rw [same_iff] at h hr hqr
  exact h (hr.trans hqr.symm)

end FilePath

namespace PathMap

variable {α : Type}

theorem find?_put (p q : FilePath) (a : α) (entries : List (FilePath × α)) :
    find? q (put p a entries) = if p.same q then some a else find? q entries := by
  induction entries with
  | nil => rfl
  | cons entry entries ih =>
      obtain ⟨k, b⟩ := entry
      by_cases hkp : k.same p = true
      · have hsame := FilePath.same_congr hkp q
        by_cases hpq : p.same q = true
        · simp [put, find?, hkp, hsame, hpq]
        · simp [put, find?, hkp, hsame, hpq]
      · by_cases hkq : k.same q = true
        · have hpq := FilePath.not_same_of_same hkp hkq
          simp [put, find?, hkp, hkq, hpq]
        · simp [put, find?, hkp, hkq, ih]

/-- After an insertion the path has the new value, and the others have what they had. -/
theorem get?_insert (m : PathMap α) (p q : FilePath) (a : α) :
    (m.insert p a).get? q = if p.same q then some a else m.get? q :=
  find?_put p q a m.entries

theorem find?_congr {p q : FilePath} (h : p.same q = true) (entries : List (FilePath × α)) :
    find? p entries = find? q entries := by
  induction entries with
  | nil => rfl
  | cons entry entries ih =>
      have hsame : entry.1.same p = entry.1.same q := by
        rw [FilePath.same, FilePath.same, FilePath.same_iff.mp h]
      rw [find?, find?, hsame, ih]

/-- Spellings of one path have one value. -/
theorem get?_congr {p q : FilePath} (h : p.same q = true) (m : PathMap α) :
    m.get? p = m.get? q :=
  find?_congr h m.entries

theorem find?_filter (p q : FilePath) (entries : List (FilePath × α)) :
    find? q (entries.filter fun entry => !entry.1.same p) =
      if p.same q then none else find? q entries := by
  induction entries with
  | nil => simp [find?]
  | cons entry entries ih =>
      obtain ⟨k, b⟩ := entry
      by_cases hkp : k.same p = true
      · have hsame := FilePath.same_congr hkp q
        by_cases hpq : p.same q = true
        · simpa [find?, hkp, hsame, hpq] using ih
        · simpa [find?, hkp, hsame, hpq] using ih
      · by_cases hkq : k.same q = true
        · have hpq := FilePath.not_same_of_same hkp hkq
          simp [find?, hkp, hkq, hpq]
        · simpa [find?, hkp, hkq] using ih

/-- After a removal the path has no value, and the others have what they had. -/
theorem get?_erase (m : PathMap α) (p q : FilePath) :
    (m.erase p).get? q = if p.same q then none else m.get? q :=
  find?_filter p q m.entries

/-! ## The paths of a map -/

/-- The paths of a list of pairs by their components, in which all spellings of one path agree. -/
def keysOf (entries : List (FilePath × α)) : List (List FilePath.Component) :=
  entries.map fun entry => entry.1.components

theorem isSome_find?_iff {path : FilePath} {entries : List (FilePath × α)} :
    (find? path entries).isSome = true ↔ path.components ∈ keysOf entries := by
  induction entries with
  | nil => simp [find?, keysOf]
  | cons entry entries ih =>
      obtain ⟨p, a⟩ := entry
      have hkeys : keysOf ((p, a) :: entries) = p.components :: keysOf entries := rfl
      rw [hkeys, List.mem_cons, ← ih, find?]
      by_cases hsame : p.same path = true
      · simp [hsame, FilePath.same_iff.mp hsame]
      · have hdiff : path.components ≠ p.components := by
          intro h
          exact hsame (FilePath.same_iff.mpr h.symm)
        simp [hsame, hdiff]

/-- A path that is new is put at the end, and otherwise the paths stay what they are. -/
theorem keysOf_put (path : FilePath) (a : α) (entries : List (FilePath × α)) :
    keysOf (put path a entries) =
      if path.components ∈ keysOf entries then keysOf entries
      else keysOf entries ++ [path.components] := by
  induction entries with
  | nil => rfl
  | cons entry entries ih =>
      obtain ⟨p, b⟩ := entry
      have hkeys : keysOf ((p, b) :: entries) = p.components :: keysOf entries := rfl
      rw [put, hkeys]
      by_cases hsame : p.same path = true
      · have hmem : path.components ∈ p.components :: keysOf entries := by
          rw [FilePath.same_iff.mp hsame]
          exact List.mem_cons_self
        rw [if_pos hsame, if_pos hmem]
        rfl
      · have hdiff : path.components ≠ p.components := by
          intro h
          exact hsame (FilePath.same_iff.mpr h.symm)
        have hput : keysOf ((p, b) :: put path a entries) =
            p.components :: keysOf (put path a entries) := rfl
        simp only [if_neg hsame, hput, ih, List.mem_cons, hdiff, false_or]
        split
        · rfl
        · rfl

/-- Every path is in a map once, however it is spelled. -/
def Distinct (m : PathMap α) : Prop :=
  (keysOf m.entries).Nodup

theorem distinct_empty : (empty : PathMap α).Distinct :=
  List.nodup_nil

theorem Distinct.insert {m : PathMap α} (h : m.Distinct) (path : FilePath) (a : α) :
    (m.insert path a).Distinct := by
  rw [Distinct, PathMap.insert, keysOf_put]
  split
  · exact h
  · next hnew =>
      rw [← List.concat_eq_append]
      exact List.Nodup.concat hnew h

theorem Distinct.erase {m : PathMap α} (h : m.Distinct) (path : FilePath) :
    (m.erase path).Distinct := by
  have hsublist : (keysOf (m.erase path).entries).Sublist (keysOf m.entries) :=
    List.filter_sublist.map _
  exact hsublist.nodup h

/-- The size of a map is the number of different paths that have values. -/
theorem Distinct.size_eq {m : PathMap α} (h : m.Distinct) :
    (m.size : ℕ∞) =
      {c | ∃ path : FilePath, path.components = c ∧ (m.get? path).isSome = true}.encard := by
  have hset : {c | ∃ path : FilePath, path.components = c ∧ (m.get? path).isSome = true} =
      ((keysOf m.entries).toFinset : Set (List FilePath.Component)) := by
    ext c
    simp only [Set.mem_ofPred_eq, List.coe_toFinset]
    constructor
    · rintro ⟨path, rfl, hvalue⟩
      exact isSome_find?_iff.mp hvalue
    · intro hc
      obtain ⟨entry, hentry, rfl⟩ := List.mem_map.mp hc
      exact ⟨entry.1, rfl, isSome_find?_iff.mpr hc⟩
  rw [hset, Set.encard_coe_eq_coe_finsetCard, List.toFinset_card_of_nodup h, keysOf,
    List.length_map]
  rfl

end PathMap
end TemplateModules
