import TemplateModules.Proofs.Loading.Cold
import TemplateModules.Proofs.Module.Imports
import TemplateModules.Proofs.Spec.Agreement

/-!
# What a cold load depends on

A configuration influences a cold load through the modules of the helpers and partials that the
template names, three options for the compiler, the module of the runtime and the choice of an
inline source map.  Everything else in it can be changed without a trace in the output.
-/

namespace TemplateModules

namespace Fields

theorem get?_filter_key
    {α : Type} (fields : Fields α) (keep : String → Bool) {key : String} (h : keep key = true) :
    get? (fields.filter fun (k, _) => keep k) key = get? fields key := by
  induction fields with
  | nil => rfl
  | cons field fields ih =>
      obtain ⟨k, v⟩ := field
      by_cases hk : k = key
      · subst hk
        simp [get?, h]
      · cases hkeep : keep k with
        | false => simpa [get?, hk, hkeep] using ih
        | true => simpa [get?, hk, hkeep] using ih

theorem contains_keys_congr
    {α : Type} {fields others : Fields α} {key : String} (h : fields.get? key = others.get? key) :
    fields.keys.contains key = others.keys.contains key := by
  rw [Bool.eq_iff_iff, List.contains_iff_mem, List.contains_iff_mem, ← isSome_get?,
    ← isSome_get?, h]

end Fields

namespace Config

open Template

/-- The module that a helper or a partial is imported from, if the configuration has it. -/
def specifier? (c : Config) (e : Extension) : Option String :=
  match e.kind with
  | .helper => c.helpers.get? e.name
  | .inclusion => c.partials.get? e.name

/-- Whether an option for the compiler is the value `true`. -/
def sets (c : Config) (key : String) : Bool :=
  ((c.compileOptions.get? key).map Json.isTrue).getD false

/-- Two configurations that agree on all that matters for a source. -/
structure Alike (source : String) (c d : Config) : Prop where
  runtimeModule : c.runtimeModule = d.runtimeModule
  inlineSourceMap : c.inlineSourceMap = d.inlineSourceMap
  specifier : ∀ e ∈ extensionsIn source, c.specifier? e = d.specifier? e
  sets : ∀ key ∈ ["noEscape", "strict", "sourceMap"], c.sets key = d.sets key

instance (source : String) (c d : Config) : Decidable (Alike source c d) :=
  decidable_of_iff
    (c.runtimeModule = d.runtimeModule ∧ c.inlineSourceMap = d.inlineSourceMap ∧
      (∀ e ∈ extensionsIn source, c.specifier? e = d.specifier? e) ∧
      ∀ key ∈ ["noEscape", "strict", "sourceMap"], c.sets key = d.sets key)
    ⟨fun ⟨h₁, h₂, h₃, h₄⟩ => ⟨h₁, h₂, h₃, h₄⟩, fun ⟨h₁, h₂, h₃, h₄⟩ => ⟨h₁, h₂, h₃, h₄⟩⟩

/-- An option that the configuration may set is passed on. -/
theorem flag_optionsFor
    (c : Config) (path : FilePath) {key : String} (h : key ∉ ownOptions) :
    (c.optionsFor path).flag key = c.sets key := by
  have hkeep : (!ownOptions.contains key) = true := by simpa using h
  have hget : (c.optionsFor path).extra.get? key = c.compileOptions.get? key :=
    Fields.get?_filter_key c.compileOptions (fun k => !ownOptions.contains k) hkeep
  rw [Spec.Options.flag, sets, hget]

variable {c d : Config} {source : String}

theorem Alike.agree (h : Alike source c d) (path : FilePath) :
    (c.optionsFor path).Agree (· ∈ extensionsIn source) (d.optionsFor path) where
  isKnown := by
    intro name hname
    have hentry : c.helpers.get? name = d.helpers.get? name := h.specifier _ hname
    simp only [Spec.Options.isKnown, optionsFor, Fields.contains_keys_congr hentry]
  only := rfl
  noEscape := by
    rw [Spec.Options.noEscape, Spec.Options.noEscape, flag_optionsFor _ _ (by decide),
      flag_optionsFor _ _ (by decide)]
    exact h.sets _ (by simp)

theorem Alike.precompile_eq (h : Alike source c d) (path : FilePath) :
    Spec.precompile (c.optionsFor path) source = Spec.precompile (d.optionsFor path) source := by
  refine Spec.precompile_congr (h.agree path) rfl ?_ ?_
  · rw [Spec.Options.strict, Spec.Options.strict, flag_optionsFor _ _ (by decide),
      flag_optionsFor _ _ (by decide)]
    exact h.sets _ (by simp)
  · rw [Spec.Options.sourceMap, Spec.Options.sourceMap, flag_optionsFor _ _ (by decide),
      flag_optionsFor _ _ (by decide)]
    exact h.sets _ (by simp)

end Config

namespace Module

open Spec

/-- Imports depend on a table only through the names that are looked up in it. -/
theorem matchNames_congr
    (kind : ExtensionKind) {table other : Fields String} {names : List String}
    (h : ∀ name ∈ names, table.get? name = other.get? name) (used : List String) :
    matchNames kind table used names = matchNames kind other used names := by
  induction names generalizing used with
  | nil => rfl
  | cons name names ih =>
      rw [List.forall_mem_cons] at h
      have hrest := ih h.2
      simp only [matchNames, h.1]
      split
      · exact hrest used
      · simp only [hrest]

theorem importsOf_congr
    {lookups : List Lookup} {table other : ExtensionTable}
    (hhelpers : ∀ name ∈ namesOf .helper lookups,
      table.helpers.get? name = other.helpers.get? name)
    (hpartials : ∀ name ∈ namesOf .inclusion lookups,
      table.partials.get? name = other.partials.get? name) :
    importsOf (.ofLookups lookups) table = importsOf (.ofLookups lookups) other := by
  rw [ofLookups_eq]
  have hfirst := matchNames_congr .helper
    (fun name hname => hhelpers name (List.mem_eraseDups.mp hname)) [runtimeName]
  have hsecond := matchNames_congr .inclusion
    (fun name hname => hpartials name (List.mem_eraseDups.mp hname))
  simp only [importsOf, hfirst, hsecond]

end Module

namespace Loading

open Template Spec TemplateModules.Module

/-- Configurations that are alike for a source import the same for it. -/
theorem importsOf_alike
    {c d : Config} {source : String} (h : c.Alike source d) (options : Options) :
    importsOf (.ofLookups (precompile options source).lookups) c.table =
      importsOf (.ofLookups (precompile options source).lookups) d.table := by
  refine importsOf_congr ?_ ?_
  · intro name hname
    obtain ⟨l, hl, hkind, rfl⟩ := mem_namesOf.mp hname
    exact h.specifier { kind := .helper, name := l.name }
      (mem_extensionsIn_of_precompile hl (by simp [Lookup.extension?, hkind]))
  · intro name hname
    obtain ⟨l, hl, hkind, rfl⟩ := mem_namesOf.mp hname
    exact h.specifier { kind := .inclusion, name := l.name }
      (mem_extensionsIn_of_precompile hl (by simp [Lookup.extension?, hkind]))

/-- Configurations that are alike for a source make the same of it. -/
theorem build_congr
    {c d : Config} {source : String} (h : c.Alike source d) (path : FilePath) :
    build c path source = build d path source := by
  have hstyle : c.style = d.style := by
    simp only [Config.style, h.runtimeModule, h.inlineSourceMap]
  have himports := importsOf_alike h (d.optionsFor path)
  simp only [build, h.precompile_eq path, text, hstyle, himports]

/-- The output of a cold load depends on nothing in the configuration but what configurations that
are alike for the source have in common. -/
theorem load_congr
    {c d : Config} {path : FilePath} {w v : World}
    (hread : w.store.read path = v.store.read path)
    (h : ∀ source, w.store.read path = .ok source → c.Alike source d) :
    (load c path w.emptied).1 = (load d path v.emptied).1 := by
  rw [load_emptied, load_emptied, ← hread]
  cases hsource : w.store.read path with
  | error e => rfl
  | ok source => exact build_congr (h source hsource) path

/-- A configuration with what a template about a list needs. -/
def plainConfig : Config :=
  { Config.initial with
    helpers := [("shout", "./shout"), ("row", "./row")]
    partials := [("card", "./card")]
    compileOptions := [("strict", .bool true)] }

/-- The same with more entries in another order, and with options that have no effect. -/
def crowdedConfig : Config :=
  { Config.initial with
    helpers := [("row", "./row"), ("item", "./item"), ("shout", "./shout")]
    partials := [("shout", "./other"), ("card", "./card")]
    compileOptions := [("knownHelpersOnly", .bool false), ("noEscape", .text "true"),
      ("knownHelpers", .object [("title", .bool true)]), ("strict", .bool true),
      ("srcName", .text "other.hbs")]
    extensions := ["txt"] }

/-- A template that names two helpers and a partial. -/
def listSource : String :=
  "\x7b\x7b#row items\x7d\x7d\x7b\x7bshout item.name\x7d\x7d" ++
    "\x7b\x7belse if empty\x7d\x7d\x7b\x7b> card\x7d\x7d\x7b\x7b/row\x7d\x7d"

def listWorld : World :=
  { store := Store.empty.add { text := "list.hbs" } listSource,
    cache := .empty, clock := 0, compiles := 0 }

theorem crowdedConfig_congr :
    (load plainConfig { text := "list.hbs" } listWorld.emptied).1 =
      (load crowdedConfig { text := "list.hbs" } listWorld.emptied).1 :=
  load_congr rfl fun source hsource => by
    rw [← Except.ok.inj hsource]
    decide +kernel

end Loading
end TemplateModules
