import Mathlib.Data.List.Induction
import TemplateModules.CommandLine.Run
import TemplateModules.Proofs.Except
import TemplateModules.Proofs.Json.Fields

/-!
# Configurations with overrides

Overrides that are put into a configuration leave the names of its tables where they are, add the
new ones at the end, and give each name the last specifier that is said for it.  What an override
gives is trimmed and not empty, so a configuration that was accepted stays one.
-/

namespace TemplateModules

namespace Text

/-- What is left of a text after trimming, if anything is, is not blank. -/
theorem isBlankText_trim {cs : List Char} (h : trim cs ≠ []) :
    isBlankText (String.ofList (trim cs)) = false := by
  have hkept : (trimStart cs).reverse.dropWhile isBlank ≠ [] := by
    intro hnil
    apply h
    rw [trim, trimEnd, hnil, List.reverse_nil]
  have hlast : isBlank (((trimStart cs).reverse.dropWhile isBlank).head hkept) = false :=
    List.head_dropWhile_not isBlank hkept
  rw [isBlankText, String.toList_ofList, List.all_eq_false]
  refine ⟨_, ?_, Bool.eq_false_iff.mp hlast⟩
  rw [trim, trimEnd, List.mem_reverse]
  exact List.head_mem hkept

end Text

/-! ## Accepted tables -/

/-- A name and a specifier that are not blank. -/
def Specified (field : String × String) : Prop :=
  Text.isBlankText field.1 = false ∧ Text.isBlankText field.2 = false

namespace Overrides

/-- The names and specifiers for one of the tables. -/
def pairs (o : Overrides) : ExtensionKind → List (String × String)
  | .helper => o.helpers
  | .inclusion => o.partials

/-- Overrides one after another.  The later module of the runtime counts. -/
instance : Append Overrides where
  append o later :=
    { helpers := o.helpers ++ later.helpers
      partials := o.partials ++ later.partials
      runtimeModule := later.runtimeModule.or o.runtimeModule
      inlineSourceMap := o.inlineSourceMap || later.inlineSourceMap }

/-- All pairs of overrides have been read from texts. -/
def Parsed (o : Overrides) : Prop :=
  ∀ kind, ∀ pair ∈ o.pairs kind, ∃ value, parsePair kind value = .ok pair

theorem specified_of_parsePair {kind : ExtensionKind} {value : String} {pair : String × String}
    (h : parsePair kind value = .ok pair) : Specified pair := by
  unfold parsePair at h
  split at h
  · cases h
  · next name specifier hsplit =>
      dsimp only at h
      split at h
      · cases h
      · next hsome =>
          rw [Bool.or_eq_true, not_or, List.isEmpty_iff, List.isEmpty_iff] at hsome
          obtain rfl := Except.ok.inj h
          exact ⟨Text.isBlankText_trim hsome.1, Text.isBlankText_trim hsome.2⟩

end Overrides

namespace Config

/-- One of the tables. -/
def specifiers (c : Config) : ExtensionKind → Fields String
  | .helper => c.helpers
  | .inclusion => c.partials

theorem validateTable_eq_ok (kind : ExtensionKind) (table : Fields String) :
    validateTable kind table = .ok () ↔ ∀ field ∈ table, Specified field := by
  induction table with
  | nil => simp [validateTable]
  | cons field table ih =>
      obtain ⟨name, specifier⟩ := field
      rw [List.forall_mem_cons, ← ih, validateTable, Specified]
      by_cases hname : Text.isBlankText name = true
      · simp [hname]
      · by_cases hspecifier : Text.isBlankText specifier = true
        · simp [hname, hspecifier]
        · simp [hname, hspecifier]

/-- A configuration is accepted if no name and no specifier of its tables is blank. -/
theorem validate_eq_ok {c : Config} :
    c.validate = .ok () ↔ ∀ kind, ∀ field ∈ c.specifiers kind, Specified field := by
  have hkinds : (∀ kind, ∀ field ∈ c.specifiers kind, Specified field) ↔
      (∀ field ∈ c.helpers, Specified field) ∧ ∀ field ∈ c.partials, Specified field := by
    constructor
    · intro h
      exact ⟨h .helper, h .inclusion⟩
    · rintro ⟨hhelpers, hpartials⟩ (_ | _)
      · exact hhelpers
      · exact hpartials
  rw [hkinds, ← validateTable_eq_ok .helper, ← validateTable_eq_ok .inclusion, validate]
  cases validateTable .helper c.helpers with
  | error e => simp
  | ok u => simp

/-! ## Pairs that are put into a table -/

section

variable {table : Fields String} {pairs : List (String × String)} {name specifier : String}

theorem insertAll_append (table : Fields String) (pairs later : List (String × String)) :
    insertAll table (pairs ++ later) = insertAll (insertAll table pairs) later :=
  List.foldl_append

theorem insertAll_concat (table : Fields String) (pairs : List (String × String))
    (name specifier : String) :
    insertAll table (pairs ++ [(name, specifier)]) =
      (insertAll table pairs).insert name specifier :=
  insertAll_append table pairs [(name, specifier)]

theorem mem_of_mem_insertAll {field : String × String} (h : field ∈ insertAll table pairs) :
    field ∈ table ∨ field ∈ pairs := by
  induction pairs using List.reverseRecOn with
  | nil => exact .inl h
  | append_singleton pairs pair ih =>
      rw [insertAll_concat] at h
      rcases Fields.mem_of_mem_insert h with rfl | h
      · exact .inr (List.mem_append_right _ List.mem_cons_self)
      · exact (ih h).imp_right (List.mem_append_left _)

end

/-! ## Merged configurations -/

section

variable {c : Config} {o : Overrides} {os : List Overrides} {kind : ExtensionKind}

theorem specifiers_merge (c : Config) (o : Overrides) (kind : ExtensionKind) :
    (c.merge o).specifiers kind = insertAll (c.specifiers kind) (o.pairs kind) := by
  cases kind with
  | helper => rfl
  | inclusion => rfl

/-- Overrides that are not blank leave an accepted configuration accepted. -/
theorem validate_merge (hc : c.validate = .ok ()) (ho : o.Parsed) :
    (c.merge o).validate = .ok () := by
  rw [validate_eq_ok] at hc ⊢
  intro kind field hfield
  rw [specifiers_merge] at hfield
  rcases mem_of_mem_insertAll hfield with hfield | hfield
  · exact hc kind field hfield
  · obtain ⟨value, hvalue⟩ := ho kind field hfield
    exact Overrides.specified_of_parsePair hvalue

end

end Config

/-! ## The configuration of a run -/

namespace CommandLine

theorem exists_parsePair_of_parsePairs {kind : ExtensionKind} {texts : List String}
    {pairs : List (String × String)} (h : Arguments.parsePairs kind texts = .ok pairs) :
    ∀ pair ∈ pairs, ∃ value, Overrides.parsePair kind value = .ok pair := by
  induction texts generalizing pairs with
  | nil =>
      obtain rfl := Except.ok.inj h
      exact fun pair hpair => absurd hpair List.not_mem_nil
  | cons text texts ih =>
      rw [Arguments.parsePairs, List.mapM_cons] at h
      obtain ⟨first, hfirst, h⟩ := bind_eq_ok.mp h
      obtain ⟨rest, hrest, h⟩ := bind_eq_ok.mp h
      obtain rfl := Except.ok.inj h
      exact List.forall_mem_cons.mpr ⟨⟨text, hfirst⟩, ih hrest⟩

theorem parsed_of_overrides {a : Arguments} {o : Overrides} (h : a.overrides = .ok o) :
    o.Parsed := by
  unfold Arguments.overrides at h
  split at h
  · cases h
  · next helpers hhelpers =>
      obtain ⟨partials, hpartials, rfl⟩ := map_eq_ok.mp h
      rintro (_ | _)
      · exact exists_parsePair_of_parsePairs hhelpers
      · exact exists_parsePair_of_parsePairs hpartials

/-- An accepted configuration is refused later only for an override that cannot be read. -/
theorem overrideConfig_eq (a : Arguments) {c : Config} (hc : c.validate = .ok ()) :
    overrideConfig a c = (a.overrides.map c.merge).mapError .overrides := by
  rw [overrideConfig]
  cases hoverrides : a.overrides with
  | error e => rfl
  | ok o =>
      have hvalid := Config.validate_merge hc (parsed_of_overrides hoverrides)
      simp only [hvalid]
      rfl

end CommandLine
end TemplateModules
