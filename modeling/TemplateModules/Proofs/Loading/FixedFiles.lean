import TemplateModules.Loading.Session
import TemplateModules.Proofs.Loading.Interleaving

/-!
# Loads while files stay as they are

As long as no file changes, what a load puts into a cache is what a cold load makes of the file, and
it stays so.  Hence a load of a configuration gives the same as with an empty cache, whatever loads
of this configuration were there before.  This holds of the loads of a session as well, and its
report has one diagnostic for each path that could not be read or compiled.
-/

namespace TemplateModules
namespace Loading

/-- The entries of a cache for certain paths hold what cold loads make of the files of a store. -/
def Cache.Faithful (config : Config) (store : Store) (paths : List FilePath) (c : Cache) : Prop :=
  ∀ p ∈ paths, ∀ entry, c.lookup p = some entry →
    cold config p (store.read p) = .ok (.contents entry.contents)

/-- What a load of a path has found out is right. -/
def Load.Knows (config : Config) (store : Store) (path : FilePath) : Load → Prop
  | found entry => cold config path (store.read path) = .ok (.contents entry.contents)
  | opened _ source => store.read path = .ok source
  | done result => result = cold config path (store.read path)
  | _ => True

theorem SpelledAlike.mono
    {paths paths' : List FilePath} (h : SpelledAlike paths) (hpaths : paths' ⊆ paths) :
    SpelledAlike paths' := by
  intro p hp q hq
  exact h p (hpaths hp) q (hpaths hq)

/-- Paths that are all different are spelled in one way each. -/
theorem spelledAlike_of_pairwise
    {paths : List FilePath} (h : paths.Pairwise fun p q => ¬p.same q = true) :
    SpelledAlike paths := by
  induction paths with
  | nil =>
      intro p hp
      cases hp
  | cons first paths ih =>
      obtain ⟨hfirst, hpaths⟩ := List.pairwise_cons.mp h
      intro p hp q hq hsame
      obtain hp | hp := List.mem_cons.mp hp <;> obtain hq | hq := List.mem_cons.mp hq
      · rw [hp, hq]
      · exact absurd (hp ▸ hsame) (hfirst q hq)
      · exact absurd (FilePath.same_symm (hq ▸ hsame)) (hfirst p hp)
      · exact ih hpaths p hp q hq hsame

/-! ## Caches -/

section

variable {config : Config} {store : Store} {paths : List FilePath} {path : FilePath} {c : Cache}

theorem Cache.faithful_empty (config : Config) (store : Store) (paths : List FilePath) :
    Cache.empty.Faithful config store paths := by
  intro p _ entry hentry
  cases hentry

theorem Cache.Faithful.mono
    {paths' : List FilePath} (h : c.Faithful config store paths) (hpaths : paths' ⊆ paths) :
    c.Faithful config store paths' := by
  intro p hp
  exact h p (hpaths hp)

end

/-! ## Steps of a load -/

section

variable {config : Config} {paths : List FilePath} {path : FilePath} {w w' : World}
  {load load' : Load}

theorem Load.Knows.cold_eq
    {timestamp : Time} {source : String}
    (h : (Load.opened timestamp source).Knows config w.store path) :
    cold config path (w.store.read path) = build config path source := by
  rw [show w.store.read path = .ok source from h, cold]

theorem Load.Knows.of_steps
    (hcache : w.cache.Faithful config w.store paths) (hpath : path ∈ paths)
    (hload : load.Knows config w.store path) (hsteps : load.Steps config path w load' w') :
    load'.Knows config w.store path := by
  cases hsteps with
  | present hentry => exact hcache path hpath _ hentry
  | hit hfresh => exact Eq.symm hload
  | unreadable hread => rw [Load.Knows, hread, cold]
  | read hread => exact hread
  | keep hbuild => exact hbuild.symm.trans hload.cold_eq.symm
  | reject hbuild => exact hload.cold_eq.symm
  | rest => exact hload
  | _ => trivial

/-- The step of a load leaves a cache that is faithful. -/
theorem Cache.Faithful.of_steps
    (hcache : w.cache.Faithful config w.store paths) (hspelled : SpelledAlike paths)
    (hpath : path ∈ paths) (hload : load.Knows config w.store path)
    (hsteps : load.Steps config path w load' w') :
    w'.cache.Faithful config w.store paths := by
  intro p hp entry hentry
  rcases hsteps.lookup hentry with hbefore | ⟨hsame, source, rfl, hbuild⟩
  · exact hcache p hp entry hbefore
  · obtain rfl := hspelled path hpath p hp hsame
    exact hload.cold_eq.trans hbuild

/-- A load gives what it would give with an empty cache, and the next one will do so too. -/
theorem Load.finish_of_faithful
    (hcache : w.cache.Faithful config w.store paths) (hspelled : SpelledAlike paths)
    (hpath : path ∈ paths) (hload : load.Knows config w.store path) :
    (load.finish config path w).1 = cold config path (w.store.read path) ∧
      (load.finish config path w).2.store = w.store ∧
      (load.finish config path w).2.cache.Faithful config w.store paths := by
  fun_induction Load.finish config path w load with
  | case1 w load result hresult =>
      cases load <;> cases hresult
      exact ⟨hload, rfl, hcache⟩
  | case2 w load hrunning hless ih =>
      have hsteps := Load.steps_step config path w load
      rw [hsteps.store_eq] at ih
      exact ih (hcache.of_steps hspelled hpath hload hsteps) (hload.of_steps hcache hpath hsteps)

theorem load_of_faithful
    (hcache : w.cache.Faithful config w.store paths) (hspelled : SpelledAlike paths)
    (hpath : path ∈ paths) :
    (Loading.load config path w).1 = cold config path (w.store.read path) ∧
      (Loading.load config path w).2.store = w.store ∧
      (Loading.load config path w).2.cache.Faithful config w.store paths :=
  Load.finish_of_faithful hcache hspelled hpath trivial

end

/-! ## Sessions -/

/-- The first of some configurations whose filter accepts a path. -/
def firstAccepting? (path : FilePath) (configs : List Config) : Option Config :=
  configs.find? fun config => config.filter.accepts path

theorem firstAccepting?_of_accepts
    {path : FilePath} {config : Config} (h : config.filter.accepts path = true)
    (configs : List Config) :
    firstAccepting? path (config :: configs) = some config :=
  List.find?_cons_of_pos h

theorem firstAccepting?_of_not_accepts
    {path : FilePath} {config : Config} (h : ¬config.filter.accepts path = true)
    (configs : List Config) :
    firstAccepting? path (config :: configs) = firstAccepting? path configs :=
  List.find?_cons_of_neg h

/-- The outcome for a path that is loaded all alone: with an empty cache, by the first of some
configurations whose filter accepts it. -/
def alone (store : Store) (configs : List Config) (path : FilePath) : Outcome :=
  match firstAccepting? path configs with
  | none => .skipped path
  | some config =>
      .ofResult path (load config path { store, cache := .empty, clock := 0, compiles := 0 }).1

theorem alone_of_none
    {store : Store} {configs : List Config} {path : FilePath}
    (h : firstAccepting? path configs = none) :
    alone store configs path = .skipped path := by
  rw [alone, h]

theorem alone_of_some
    {store : Store} {configs : List Config} {path : FilePath} {config : Config}
    (h : firstAccepting? path configs = some config) :
    alone store configs path = .ofResult path (cold config path (store.read path)) := by
  have hcold := load_emptied config path { store, cache := .empty, clock := 0, compiles := 0 }
  rw [alone, h]
  exact congrArg (Outcome.ofResult path) hcold

/-- Of the files, only the one at the path matters. -/
theorem alone_congr
    {store store' : Store} {path : FilePath} (h : store'.read path = store.read path)
    (configs : List Config) :
    alone store' configs path = alone store configs path := by
  cases hfirst : firstAccepting? path configs with
  | none => rw [alone_of_none hfirst, alone_of_none hfirst]
  | some config => rw [alone_of_some hfirst, alone_of_some hfirst, h]

namespace Session

/-- The configurations of a session with their caches, the main plugin first. -/
def members (s : Session) : List (Config × Cache) :=
  (s.config, s.world.cache) :: s.plugins.map fun p => (p.config, p.cache)

def configs (s : Session) : List Config :=
  s.config :: s.plugins.map Plugin.config

theorem map_fst_members (s : Session) : s.members.map Prod.fst = s.configs := by
  simp [members, configs]

structure Faithful (paths : List FilePath) (s : Session) : Prop where
  main : s.world.cache.Faithful s.config s.world.store paths
  others : ∀ p ∈ s.plugins, p.cache.Faithful p.config s.world.store paths

theorem faithful_of_members
    {paths : List FilePath} {s : Session}
    (h : ∀ m ∈ s.members, m.2.Faithful m.1 s.world.store paths) :
    s.Faithful paths := by
  constructor
  · exact h (s.config, s.world.cache) List.mem_cons_self
  · intro p hp
    exact h (p.config, p.cache) (List.mem_cons_of_mem _ (List.mem_map_of_mem hp))

end Session

section

variable {paths : List FilePath} {path : FilePath} {w : World}

theorem Plugin.load_of_faithful
    {p : Plugin} (hcache : p.cache.Faithful p.config w.store paths)
    (hspelled : SpelledAlike paths) (hpath : path ∈ paths) :
    ∃ p' w', p.load path w = (cold p.config path (w.store.read path), p', w') ∧
      p'.config = p.config ∧ p'.cache.Faithful p.config w.store paths ∧
      w'.store = w.store ∧ w'.cache = w.cache := by
  obtain ⟨hresult, hstore, hfaithful⟩ :=
    Loading.load_of_faithful (w := { w with cache := p.cache }) hcache hspelled hpath
  refine ⟨_, _, Prod.ext hresult rfl, rfl, hfaithful, hstore, rfl⟩

variable (path) in
/-- What the first plugin that accepts a path makes of it. -/
theorem loadFirst_of_faithful
    {plugins : List Plugin} (hplugins : ∀ p ∈ plugins, p.cache.Faithful p.config w.store paths)
    (hspelled : SpelledAlike paths) (hpath : path ∈ paths) :
    match firstAccepting? path (plugins.map Plugin.config) with
    | none => loadFirst path w plugins = none
    | some config => ∃ plugins' w',
        loadFirst path w plugins = some (cold config path (w.store.read path), plugins', w') ∧
        plugins'.map Plugin.config = plugins.map Plugin.config ∧
        (∀ p ∈ plugins', p.cache.Faithful p.config w.store paths) ∧
        w'.store = w.store ∧ w'.cache = w.cache := by
  induction plugins with
  | nil => rfl
  | cons p plugins ih =>
      have hfirst := hplugins p List.mem_cons_self
      have hothers : ∀ q ∈ plugins, q.cache.Faithful q.config w.store paths := by
        intro q hq
        exact hplugins q (List.mem_cons_of_mem _ hq)
      by_cases haccepts : p.config.filter.accepts path = true
      · obtain ⟨p', w', hload, hconfig, hcache, hstore, hkept⟩ :=
          Plugin.load_of_faithful hfirst hspelled hpath
        rw [List.map_cons, firstAccepting?_of_accepts haccepts]
        refine ⟨p' :: plugins, w', ?_, ?_, ?_, hstore, hkept⟩
        · simp [loadFirst, haccepts, hload]
        · rw [List.map_cons, hconfig]
        · intro q hq
          rcases List.mem_cons.mp hq with rfl | hq
          · rw [hconfig]
            exact hcache
          · exact hothers q hq
      · rw [List.map_cons, firstAccepting?_of_not_accepts haccepts]
        specialize ih hothers
        revert ih
        split
        · intro hnone
          simp [loadFirst, haccepts, hnone]
        · rintro ⟨plugins', w', hload, hconfigs, hcaches, hstore, hkept⟩
          refine ⟨p :: plugins', w', ?_, ?_, ?_, hstore, hkept⟩
          · simp [loadFirst, haccepts, hload]
          · rw [List.map_cons, hconfigs]
          · intro q hq
            rcases List.mem_cons.mp hq with rfl | hq
            · exact hfirst
            · exact hcaches q hq

namespace Session

/-- A host's request for one path has the outcome of a load all alone. -/
theorem hostLoad_of_faithful
    {s : Session} (h : s.Faithful paths) (hspelled : SpelledAlike paths) (hpath : path ∈ paths) :
    (s.hostLoad path).1 = alone s.world.store s.configs path ∧
      (s.hostLoad path).2.world.store = s.world.store ∧
      (s.hostLoad path).2.configs = s.configs ∧ (s.hostLoad path).2.Faithful paths := by
  by_cases haccepts : s.config.filter.accepts path = true
  · obtain ⟨hresult, hstore, hcache⟩ := load_of_faithful h.main hspelled hpath
    have hfind : firstAccepting? path s.configs = some s.config :=
      firstAccepting?_of_accepts haccepts _
    have hload : s.hostLoad path =
        (.ofResult path (Loading.load s.config path s.world).1,
          { s with world := (Loading.load s.config path s.world).2 }) := by
      rw [hostLoad, if_pos haccepts]
      rfl
    rw [hload, alone_of_some hfind, hresult]
    refine ⟨rfl, hstore, rfl, ?_, ?_⟩
    · rw [← hstore] at hcache
      exact hcache
    · change ∀ p ∈ s.plugins, p.cache.Faithful p.config
        (Loading.load s.config path s.world).2.store paths
      rw [hstore]
      exact h.others
  · have hfirst := loadFirst_of_faithful path h.others hspelled hpath
    have hfind : firstAccepting? path s.configs =
        firstAccepting? path (s.plugins.map Plugin.config) :=
      firstAccepting?_of_not_accepts haccepts _
    revert hfirst
    split
    · next hnone =>
        intro hfirst
        rw [hnone] at hfind
        have hload : s.hostLoad path = (.skipped path, s) := by
          rw [hostLoad, if_neg haccepts, hfirst]
        rw [hload, alone_of_none hfind]
        exact ⟨rfl, rfl, rfl, h⟩
    · next config hsome =>
        rintro ⟨plugins, w, hfirst, hconfigs, hcaches, hstore, hkept⟩
        rw [hsome] at hfind
        have hload : s.hostLoad path =
            (.ofResult path (cold config path (s.world.store.read path)),
              { s with plugins, world := w }) := by
          rw [hostLoad, if_neg haccepts, hfirst]
        rw [hload, alone_of_some hfind]
        refine ⟨rfl, hstore, congrArg (s.config :: ·) hconfigs, ?_, ?_⟩
        · change w.cache.Faithful s.config w.store paths
          rw [hkept, hstore]
          exact h.main
        · change ∀ p ∈ plugins, p.cache.Faithful p.config w.store paths
          rw [hstore]
          exact hcaches

/-- The outcomes of a run are those of loads all alone. -/
theorem run_of_faithful
    {s : Session} (h : s.Faithful paths) (hspelled : SpelledAlike paths) :
    (s.run paths).1 = paths.map (alone s.world.store s.configs) := by
  have hall : ∀ asked : List FilePath, (∀ p ∈ asked, p ∈ paths) → ∀ s : Session,
      s.Faithful paths → (s.hostLoadAll asked).1 = asked.map (alone s.world.store s.configs) := by
    intro asked hasked
    induction asked with
    | nil =>
        intro s _
        rfl
    | cons p asked ih =>
        intro s hs
        obtain ⟨houtcome, hstore, hconfigs, hfaithful⟩ :=
          hostLoad_of_faithful hs hspelled (hasked p List.mem_cons_self)
        have hrest := ih (fun q hq => hasked q (List.mem_cons_of_mem _ hq)) _ hfaithful
        rw [hstore, hconfigs] at hrest
        rw [List.map_cons, ← houtcome, ← hrest]
        rfl
  exact hall paths (fun _ hp => hp) s h

end Session
end

/-! ## Failures -/

/-- Whether a path could not be read or compiled. -/
def Outcome.hasFailed : Outcome → Bool
  | loaded _ output => output.isError
  | failed _ _ => true
  | skipped _ => false

/-- No file of a store makes the scanner give up. -/
def Scannable (store : Store) : Prop :=
  ∀ path source, store.read path = .ok source → Template.scan source ≠ .error .backwards

theorem build_ne_file (config : Config) (path : FilePath) (source : String) (e : FileError) :
    build config path source ≠ .error (.file e) := by
  intro h
  simp only [build] at h
  split at h <;> cases h

theorem build_ne_crashed
    {source : String} (h : Template.scan source ≠ .error .backwards)
    (config : Config) (path : FilePath) :
    build config path source ≠ .error .crashed := by
  intro hbuild
  apply h
  cases hscan : Template.scan source with
  | error failure =>
      cases failure with
      | backwards => rfl
      | refused e => simp [build, Spec.precompile, Template.parse, hscan] at hbuild
  | ok tokens =>
      cases hprogram : Template.ofTokens tokens with
      | error e => simp [build, Spec.precompile, Template.parse, hscan, hprogram] at hbuild
      | ok program =>
          cases hmain : (Spec.compileSection (config.optionsFor path) [] program).result <;>
            simp [build, Spec.precompile, Template.parse, hscan, hprogram, hmain] at hbuild

/-- A template that cannot be compiled has one error. -/
theorem errorTexts_of_build
    {config : Config} {path : FilePath} {source : String} {output : LoadOutput}
    (h : build config path source = .ok output) (herror : output.isError = true) :
    ∃ text, output.errorTexts = [text] := by
  simp only [build] at h
  split at h
  · cases h
    cases herror
  · cases h
    exact ⟨_, rfl⟩
  · cases h

/-- A path that fails has one message. -/
theorem exists_messages_alone
    {store : Store} (hscans : Scannable store) {configs : List Config} {path : FilePath}
    (h : (alone store configs path).hasFailed = true) :
    ∃ text, (alone store configs path).messages = [text] := by
  cases hfirst : firstAccepting? path configs with
  | none =>
      rw [alone_of_none hfirst] at h
      cases h
  | some config =>
      rw [alone_of_some hfirst] at h ⊢
      cases hread : store.read path with
      | error e => exact ⟨e.message, rfl⟩
      | ok source =>
          rw [hread, cold] at h
          rw [cold]
          cases hbuild : build config path source with
          | ok output =>
              rw [hbuild] at h
              exact errorTexts_of_build hbuild h
          | error failure =>
              cases failure with
              | file e => exact ⟨e.message, rfl⟩
              | crashed =>
                  exact absurd hbuild (build_ne_crashed (hscans path source hread) config path)

theorem Outcome.messages_of_not_hasFailed
    {o : Outcome} (h : o.hasFailed = false) :
    o.messages = [] := by
  match o with
  | loaded _ (.contents _) => rfl
  | loaded _ (.errors _) => cases h
  | failed _ _ => cases h
  | skipped _ => rfl

/-- There is one diagnostic for each outcome that has failed, in their order. -/
theorem forall₂_diagnosticsOf
    {outcomes : List Outcome}
    (h : ∀ o ∈ outcomes, o.hasFailed = true → ∃ text, o.messages = [text]) :
    List.Forall₂ (fun o d => d.path = o.path ∧ o.messages = [d.text])
      (outcomes.filter Outcome.hasFailed) (diagnosticsOf outcomes) := by
  induction outcomes with
  | nil => exact .nil
  | cons o outcomes ih =>
      have hrest := ih fun p hp => h p (List.mem_cons_of_mem _ hp)
      by_cases hfailed : o.hasFailed = true
      · obtain ⟨text, htext⟩ := h o List.mem_cons_self hfailed
        rw [List.filter_cons_of_pos hfailed, diagnosticsOf, List.flatMap_cons, htext]
        exact .cons ⟨rfl, htext⟩ hrest
      · have hnone := Outcome.messages_of_not_hasFailed (eq_false_of_ne_true hfailed)
        rw [List.filter_cons_of_neg hfailed, diagnosticsOf, List.flatMap_cons, hnone]
        exact hrest

theorem Diagnostics.reported_reportAll (ds : Diagnostics) (found : List Diagnostic) :
    (ds.reportAll found).reported = ds.reported ++ found := by
  induction found generalizing ds with
  | nil => exact (List.append_nil _).symm
  | cons d found ih =>
      rw [reportAll, List.foldl_cons, ← reportAll, ih, report, List.append_assoc]
      rfl

end Loading
end TemplateModules
