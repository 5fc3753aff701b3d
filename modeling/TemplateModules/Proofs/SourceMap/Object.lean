import Mathlib.Tactic.Common
import TemplateModules.Module.Text
import TemplateModules.Proofs.Json.RoundTrip

/-!
# Source maps as objects

A source map is written as an object that can be read back.  Moving it down changes the mappings and
no other field.
-/

namespace TemplateModules

namespace Fields

variable {α : Type} {fields : Fields α} {key : String}

theorem get?_append_of_notMem (h : key ∉ fields.map Prod.fst) (more : Fields α) :
    Fields.get? (fields ++ more) key = Fields.get? more key := by
  induction fields with
  | nil => rfl
  | cons field fields ih =>
      obtain ⟨k, v⟩ := field
      rw [List.map_cons, List.mem_cons, not_or] at h
      rw [List.cons_append, Fields.get?, if_neg (Ne.symm h.1), ih h.2]

theorem insert_append_of_notMem (h : key ∉ fields.map Prod.fst) (more : Fields α) (value : α) :
    Fields.insert (fields ++ more) key value = fields ++ Fields.insert more key value := by
  induction fields with
  | nil => rfl
  | cons field fields ih =>
      obtain ⟨k, v⟩ := field
      rw [List.map_cons, List.mem_cons, not_or] at h
      rw [List.cons_append, Fields.insert, if_neg (Ne.symm h.1), ih h.2]
      rfl

/-- A field at the end does not change the values of other keys. -/
theorem get?_concat_of_ne {other : String} (h : other ≠ key) (value : α) :
    Fields.get? (fields ++ [(key, value)]) other = Fields.get? fields other := by
  induction fields with
  | nil =>
      change (if key = other then some value else none) = none
      rw [if_neg (Ne.symm h)]
  | cons field fields ih =>
      obtain ⟨k, v⟩ := field
      rw [List.cons_append, Fields.get?, Fields.get?, ih]

end Fields

namespace Json

theorem plainItems_texts (depth : Nat) (items : List String) :
    PlainItems depth (items.map text) := by
  induction items with
  | nil => exact trivial
  | cons item items ih => exact ⟨trivial, ih⟩

theorem plain_texts (depth : Nat) (items : List String) : (texts items).Plain (depth + 1) :=
  plainItems_texts depth items

theorem plainFields_append {depth : Nat} {fields more : List (String × Json)} :
    PlainFields depth (fields ++ more) ↔ PlainFields depth fields ∧ PlainFields depth more := by
  induction fields with
  | nil => simp [PlainFields]
  | cons field fields ih =>
      obtain ⟨key, v⟩ := field
      simp [PlainFields, ih, and_assoc]

end Json

namespace SourceMap
namespace Builder

/-- The fields of a source map apart from the mappings. -/
def ownFields (b : Builder) : List (String × Json) :=
  [("version", .number (.int 3))] ++
    (b.file.map fun file => ("file", Json.text file)).toList ++
    [("sources", .texts [b.source])] ++
    (if b.contents.isEmpty then [] else [("sourcesContent", .texts b.contents)]) ++
    [("names", .texts b.names)]

theorem toJson_eq (b : Builder) (mappings : String) :
    b.toJson mappings = .object (b.ownFields ++ [("mappings", .text mappings)]) := by
  simp [toJson, ownFields]

/-- The fields of a source map are different ones, and there are mappings only once. -/
theorem nodup_keys (b : Builder) (mappings : String) :
    ((b.ownFields ++ [("mappings", Json.text mappings)]).map Prod.fst).Nodup := by
  unfold ownFields
  cases b.file <;> cases b.contents <;> simp

theorem mappings_notMem_ownFields (b : Builder) : "mappings" ∉ b.ownFields.map Prod.fst := by
  have hnodup := b.nodup_keys ""
  rw [List.map_append, List.nodup_append] at hnodup
  intro hmem
  exact hnodup.2.2 _ hmem _ (List.mem_singleton_self _) rfl

theorem plainFields_ownFields (b : Builder) (depth : Nat) :
    Json.PlainFields (depth + 1) b.ownFields := by
  have htexts := Json.plain_texts depth
  have hversion : (3 : Int) ≤ Written.maxNatural := by decide
  unfold ownFields
  cases b.file <;> cases b.contents <;>
    simp [Json.PlainFields, Json.Plain, JsonNumber.IsInteger, htexts, hversion]

/-- A source map that is written can be read. -/
theorem read?_toJson (b : Builder) (mappings : String) :
    Json.read? (b.toJson mappings).write = some (b.toJson mappings) := by
  apply Json.read?_write
  rw [toJson_eq]
  refine ⟨b.nodup_keys mappings, ?_⟩
  exact Json.plainFields_append.mpr ⟨b.plainFields_ownFields _, trivial, trivial⟩

/-- Moving a source map down puts semicolons in front of its mappings. -/
theorem shiftMappings_toJson (b : Builder) (lines : Nat) (mappings : String) :
    Module.shiftMappings lines (b.toJson mappings) =
      b.toJson (String.ofList (List.replicate lines ';') ++ mappings) := by
  have hget : Fields.get? (b.ownFields ++ [("mappings", .text mappings)]) "mappings" =
      some (.text mappings) := by
    rw [Fields.get?_append_of_notMem b.mappings_notMem_ownFields]
    rfl
  rw [toJson_eq, toJson_eq, Module.shiftMappings]
  simp only [hget]
  rw [Fields.insert_append_of_notMem b.mappings_notMem_ownFields]
  rfl

end Builder
end SourceMap
end TemplateModules
