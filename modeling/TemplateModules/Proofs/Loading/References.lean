import TemplateModules.Proofs.Loading.Cold
import TemplateModules.Proofs.Module.Capture
import TemplateModules.Proofs.Module.Imports
import TemplateModules.Proofs.Module.Readback
import TemplateModules.Proofs.Spec.Enclosed
import TemplateModules.Proofs.Spec.Numbering

/-!
# A module registers what its template calls

A module that a load returns imports and registers the helpers and partials that its template calls
and that the configuration has, and calls no other helpers than these and the built-in ones.  Calls
are found by scanning the code that was written, and registrations by reading the lines of the
module, and not by looking at how they came about.
-/

namespace TemplateModules

namespace Spec

/-- The mentions of helpers and partials in the code of a template are those that its compilation
reports, and of helpers no others than the options allow. -/
theorem exists_scan_of_precompile
    {options : Options} {source : String} {artifact : Artifact}
    (h : (precompile options source).result = .ok artifact) :
    ∃ ms, Script.scan artifact.code.toList = some ms ∧
      (∀ m : Mention, m.isNamed = true →
        (m.Occurs ms ↔ m ∈ reported (precompile options source).lookups)) ∧
      WellMade ms ∧
      ∀ l ∈ (precompile options source).lookups, options.Allows l := by
  obtain ⟨program, main, hparse, hmain, rfl⟩ := exists_section_of_precompile h
  have hlookups : (precompile options source).lookups =
      (compileSection options [] program).lookups := by
    simp [precompile, hparse]
  obtain ⟨ms, hscan, hoccurs, hmade⟩ := (main.layout.emits_code options.strict).exists_scan
  refine ⟨ms, hscan, ?_, hmade, ?_⟩
  · intro m hnamed
    rw [hoccurs m, hlookups, mem_mentions_iff_reported hmain hnamed]
  · rw [hlookups]
    exact (reports_compileSection options [] program).allowed

/-- The mentions that lookups of a kind stand for have the names that these report. -/
theorem mem_reported_iff
    {lookups : List Lookup} {name : String} {kind : LookupKind} {m : Mention}
    (h : ∀ l : Lookup, l.mention? = some m ↔ l.kind = kind ∧ l.name = name) :
    m ∈ reported lookups ↔ name ∈ Module.namesOf kind lookups := by
  simp only [reported, List.mem_filterMap, Module.mem_namesOf, h]

theorem mention?_eq_helper {name : String} (l : Lookup) :
    l.mention? = some (.helper name) ↔ l.kind = .helper ∧ l.name = name := by
  obtain ⟨n, kind, tag⟩ := l
  cases kind <;> simp [Lookup.mention?]

theorem mention?_eq_inclusion {name : String} (l : Lookup) :
    l.mention? = some (.inclusion name) ↔ l.kind = .inclusion ∧ l.name = name := by
  obtain ⟨n, kind, tag⟩ := l
  cases kind <;> simp [Lookup.mention?]

end Spec

namespace Loading

open Script Spec TemplateModules.Module

/-- The imports of a module suit the code of its template.  The code is given by what a scan meets
in it, the compilation by the names that it reports. -/
structure Registered
    (config : Config) (lookups : List Lookup) (ms : List Mark) (imports : Imports) : Prop where
  /-- Wherever a helper is read, it is one that is built in or in the table. -/
  callSite : ∀ s, s <:+ ms → chars MentionKind.helper.head <+: s →
    ∃ name, (Mention.helper name).marks <+: s ∧
      (name ∈ builtinHelpers ∨ name ∈ config.helpers.keys)
  /-- Wherever a partial is read, its name is written out. -/
  partialSite : ∀ s, s <:+ ms → chars MentionKind.inclusion.head <+: s →
    ∃ name, (Mention.inclusion name).marks <+: s
  helpers : Imported config.helpers (namesOf .helper lookups) imports.helpers
  partials : Imported config.partials (namesOf .inclusion lookups) imports.partials
  reported_helper : ∀ name, name ∈ namesOf .helper lookups ↔ (Mention.helper name).Occurs ms
  reported_partial : ∀ name, name ∈ namesOf .inclusion lookups ↔ (Mention.inclusion name).Occurs ms
  imported_helper : ∀ name, name ∈ imports.helpers.map Import.name ↔
    (Mention.helper name).Occurs ms ∧ name ∈ config.helpers.keys
  imported_partial : ∀ name, name ∈ imports.partials.map Import.name ↔
    (Mention.inclusion name).Occurs ms ∧ name ∈ config.partials.keys
  /-- No helper is called that is neither built in nor registered. -/
  called : ∀ name, (Mention.helper name).Occurs ms →
    name ∈ builtinHelpers ∨ name ∈ imports.helpers.map Import.name

theorem registered_of_precompile
    {config : Config} {path : FilePath} {source : String} {artifact : Artifact}
    (h : (precompile (config.optionsFor path) source).result = .ok artifact) :
    ∃ ms, scan artifact.code.toList = some ms ∧
      Registered config (precompile (config.optionsFor path) source).lookups ms
        (importsOf (.ofLookups (precompile (config.optionsFor path) source).lookups)
          config.table) := by
  obtain ⟨ms, hscan, hoccurs, hmade, hallowed⟩ := exists_scan_of_precompile h
  generalize (precompile (config.optionsFor path) source).lookups = lookups at *
  obtain ⟨hhelpers, hpartials⟩ := imported_importsOf lookups config.table
  have hhelper (name : String) :
      name ∈ namesOf .helper lookups ↔ (Mention.helper name).Occurs ms := by
    rw [hoccurs _ rfl, mem_reported_iff mention?_eq_helper]
  have hpartial (name : String) :
      name ∈ namesOf .inclusion lookups ↔ (Mention.inclusion name).Occurs ms := by
    rw [hoccurs _ rfl, mem_reported_iff mention?_eq_inclusion]
  have hknown (name : String) (hname : (Mention.helper name).Occurs ms) :
      name ∈ builtinHelpers ∨ name ∈ config.helpers.keys := by
    obtain ⟨l, hl, hkind, rfl⟩ := mem_namesOf.mp ((hhelper name).mpr hname)
    -- Only known helpers may be called, whatever the configuration passes on.
    have honly : (config.optionsFor path).knownHelpersOnly = true := rfl
    rcases hallowed l hl hkind with hisKnown | hfree
    · simpa [Options.isKnown, Config.optionsFor] using hisKnown
    · simp [honly] at hfree
  refine ⟨ms, hscan, ?_, ?_, hhelpers, hpartials, hhelper, hpartial, ?_, ?_, ?_⟩
  · intro s hs hhead
    obtain ⟨m, hkind, hm⟩ := hmade s hs .helper hhead
    cases m <;> cases hkind
    next name => exact ⟨name, hm, hknown name (hm.isInfix.trans hs.isInfix)⟩
  · intro s hs hhead
    obtain ⟨m, hkind, hm⟩ := hmade s hs .inclusion hhead
    cases m <;> cases hkind
    next name => exact ⟨name, hm⟩
  · intro name
    rw [hhelpers.mem_iff, hhelper]
    rfl
  · intro name
    rw [hpartials.mem_iff, hpartial]
    rfl
  · intro name hname
    rcases hknown name hname with hbuiltin | hkey
    · exact Or.inl hbuiltin
    · exact Or.inr ((hhelpers.mem_iff name).mpr ⟨(hhelper name).mpr hname, hkey⟩)

/-- A text is that of a module which registers certain imports and exports the code of a
template. -/
structure Registers (runtimeModule : String) (imports : Imports) (code text : String) : Prop where
  /-- The lines of the module are read back as its imports and their registrations.  Behind these
  stands the template, and behind the template nothing but the comment of a source map, if there is
  one. -/
  readBack : ∃ trailer, (trailer = [] ∨ ∃ map, trailer = [mapLine map]) ∧
    text = "\n".intercalate
      (headerLines runtimeModule imports ++ [templateLine code] ++ trailer) ∧
    readHeader? (text.toList.splitOn '\n') =
      some (imports.header runtimeModule,
        (templateLine code).toList.splitOn '\n' ++ trailer.map String.toList)
  /-- The line of the template takes the name of the runtime only once, to export the template. -/
  exported : ∃ names, freeNames? (templateLine code) = some (runtimeName :: names) ∧
    runtimeName ∉ names

theorem registers_text
    {options : Options} {source : String} {artifact : Artifact}
    (h : (precompile options source).result = .ok artifact) (style : Style)
    (refs : Module.References) (table : ExtensionTable) :
    Registers style.runtimeModule (importsOf refs table) artifact.code
      (Module.text style artifact refs table) where
  readBack := by
    obtain ⟨trailer, htrailer, htext, hsplit⟩ := exists_splitOn_text style artifact refs table
    exact ⟨trailer, htrailer, htext, readHeader?_text hsplit⟩
  exported := by
    obtain ⟨program, main, -, -, rfl⟩ := exists_section_of_precompile h
    obtain ⟨names, hnames, htemplate⟩ := freeNames?_templateLine options.strict main.layout
    refine ⟨names, htemplate, ?_⟩
    rw [hnames]
    decide

/-- A module that a cold load returns registers just what its template calls. -/
theorem load_registers
    {config : Config} {path : FilePath} {w : World} {text : String}
    (h : (load config path w.emptied).1 = .ok (.contents text)) :
    ∃ source artifact imports ms,
      w.store.read path = .ok source ∧
      (precompile (config.optionsFor path) source).result = .ok artifact ∧
      Registers config.runtimeModule imports artifact.code text ∧
      scan artifact.code.toList = some ms ∧
      Registered config (precompile (config.optionsFor path) source).lookups ms imports := by
  rw [load_emptied] at h
  cases hread : w.store.read path with
  | error e => simp [hread, cold] at h
  | ok source =>
      rw [hread] at h
      cases hresult : (precompile (config.optionsFor path) source).result with
      | error failure => cases failure <;> simp [cold, build, hresult] at h
      | ok artifact =>
          simp only [cold, build, hresult, Except.ok.injEq, LoadOutput.contents.injEq] at h
          obtain ⟨ms, hscan, hregistered⟩ := registered_of_precompile hresult
          have hregisters := registers_text hresult config.style
            (.ofLookups (precompile (config.optionsFor path) source).lookups) config.table
          exact ⟨source, artifact, _, ms, rfl, hresult, h ▸ hregisters, hscan, hregistered⟩

/-- A configuration with a helper and a partial, and one of each that nothing refers to. -/
def greeting : Config :=
  { Config.initial with
    helpers := [("shout", "./shout"), ("unused", "./unused")]
    partials := [("card", "./card"), ("other", "./other")]
    compileOptions := [("knownHelpersOnly", .bool false)] }

/-- A world with one template, which calls a helper inside of another call and of a block. -/
def greetingWorld : World :=
  { store := Store.empty.add { text := "greeting.hbs" }
      "\x7b\x7b#if (shout name)\x7d\x7d\x7b\x7b> card\x7d\x7d\x7b\x7b/if\x7d\x7d",
    cache := .empty, clock := 0, compiles := 0 }

theorem greeting_registers :
    ∃ text,
      (load greeting { text := "greeting.hbs" } greetingWorld.emptied).1 = .ok (.contents text) ∧
      ∃ source artifact imports ms,
        greetingWorld.store.read { text := "greeting.hbs" } = .ok source ∧
        (precompile (greeting.optionsFor { text := "greeting.hbs" }) source).result =
          .ok artifact ∧
        Registers greeting.runtimeModule imports artifact.code text ∧
        scan artifact.code.toList = some ms ∧
        Registered greeting
          (precompile (greeting.optionsFor { text := "greeting.hbs" }) source).lookups ms
          imports :=
  (exists_contents_of_isSome (by decide +kernel)).imp fun _ htext =>
    ⟨htext, load_registers htext⟩

end Loading
end TemplateModules
