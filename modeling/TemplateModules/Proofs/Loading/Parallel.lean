import Mathlib.Data.List.Forall2
import Mathlib.Data.List.Nodup
import Mathlib.Logic.Function.Basic
import TemplateModules.Proofs.Loading.FixedFiles

/-!
# Loads of a host that run in parallel

A host loads many paths at a time.  Each is loaded by the first callback that accepts it, and
callbacks may share caches.  The files stay as they are, but the steps of all loads come in any
order, and the clock may show anything.

All caches stay faithful, whatever happens, so that each path has the outcome that it has all alone.
A load that is given six turns has ended.
-/

namespace TemplateModules
namespace Loading

/-! ## Pools -/

/-- A plugin as a host knows it: a configuration, and the number of the cache that it uses. -/
structure Callback where
  config : Config
  cache : Nat

/-- A path that is being loaded, unless no callback accepts it. -/
structure Request where
  path : FilePath
  callback? : Option Callback
  load : Load

namespace Request

/-- The request of a host for a path. -/
def ofPath (callbacks : List Callback) (path : FilePath) : Request where
  path := path
  callback? := callbacks.find? fun c => c.config.filter.accepts path
  load := .start

/-- How a request has ended, if it has. -/
def outcome? (r : Request) : Option Outcome :=
  match r.callback? with
  | none => some (.skipped r.path)
  | some _ => r.load.result?.map (.ofResult r.path)

/-- The most steps that a request still takes. -/
def remaining (r : Request) : Nat :=
  match r.callback? with
  | none => 0
  | some _ => r.load.remaining

end Request

/-- Requests that share caches. -/
structure Pool where
  clock : Time
  compiles : Nat
  caches : Nat → Cache
  requests : List Request

namespace Pool

/-- A pool in which nothing has been loaded. -/
def initial : Pool where
  clock := 0
  compiles := 0
  caches := fun _ => .empty
  requests := []

/-- What can happen next while files stay as they are. -/
inductive Event where
  /-- A load begins by itself, whatever the filter says. -/
  | load (callback : Callback) (path : FilePath)
  /-- A host begins to load paths. -/
  | submit (callbacks : List Callback) (paths : List FilePath)
  /-- A request takes its next step, if it has one. -/
  | advance (index : Nat)
  /-- The clock shows any time. -/
  | setClock (now : Time)

/-- What the loads that use a cache share. -/
def world (store : Store) (pool : Pool) (number : Nat) : World where
  store := store
  cache := pool.caches number
  clock := pool.clock
  compiles := pool.compiles

/-- A request takes its next step. -/
def advance (store : Store) (pool : Pool) (index : Nat) : Pool :=
  match pool.requests[index]? with
  | none => pool
  | some r =>
      match r.callback? with
      | none => pool
      | some c =>
          let (load, w) := r.load.step c.config r.path (pool.world store c.cache)
          { clock := w.clock
            compiles := w.compiles
            caches := Function.update pool.caches c.cache w.cache
            requests := pool.requests.set index { r with load } }

/-- What an event makes of a pool. -/
def apply (store : Store) (pool : Pool) : Event → Pool
  | .load c path =>
      { pool with requests := pool.requests ++ [{ path, callback? := some c, load := .start }] }
  | .submit callbacks paths =>
      { pool with requests := pool.requests ++ paths.map (Request.ofPath callbacks) }
  | .advance index => pool.advance store index
  | .setClock now => { pool with clock := now }

/-- What a sequence of events makes of a pool. -/
def run (store : Store) (pool : Pool) (events : List Event) : Pool :=
  events.foldl (apply store) pool

theorem run_append (store : Store) (pool : Pool) (events more : List Event) :
    pool.run store (events ++ more) = (pool.run store events).run store more :=
  List.foldl_append

theorem run_concat (store : Store) (pool : Pool) (events : List Event) (e : Event) :
    pool.run store (events ++ [e]) = (pool.run store events).apply store e :=
  run_append store pool events [e]

/-- Some requests in a row. -/
def batch (pool : Pool) (first count : Nat) : List Request :=
  (pool.requests.drop first).take count

/-- The outcomes of some requests in a row, if all have ended. -/
def outcomes? (pool : Pool) (first count : Nat) : Option (List Outcome) :=
  (pool.batch first count).mapM Request.outcome?

end Pool

/-- The callbacks that events mention. -/
def callbacksOf (events : List Pool.Event) : List Callback :=
  events.flatMap fun e =>
    match e with
    | .load c _ => [c]
    | .submit callbacks _ => callbacks
    | _ => []

/-- The paths that events ask for. -/
def pathsOf (events : List Pool.Event) : List FilePath :=
  events.flatMap fun e =>
    match e with
    | .load _ path => [path]
    | .submit _ paths => paths
    | _ => []

/-- Each cache serves one configuration only. -/
def ServeOne (callbacks : List Callback) : Prop :=
  ∀ a ∈ callbacks, ∀ b ∈ callbacks, a.cache = b.cache → a.config = b.config

/-- How often a request is given a turn. -/
def turns (index : Nat) (events : List Pool.Event) : Nat :=
  events.countP fun e =>
    match e with
    | .advance k => k = index
    | _ => false

/-! ## Turns -/

theorem Request.remaining_step
    {r : Request} {c : Callback} (hc : r.callback? = some c) (w : World) :
    ({ r with load := (r.load.step c.config r.path w).1 } : Request).remaining ≤
      r.remaining - 1 := by
  simp only [Request.remaining, hc]
  cases hresult : r.load.result? with
  | none =>
      have hlt := Load.remaining_step_lt c.config r.path w r.load hresult
      omega
  | some result =>
      have hdone : r.load = .done result := by
        cases hload : r.load <;> simp_all [Load.result?]
      rw [hdone]
      exact Nat.zero_le _

theorem Request.isSome_outcome?
    {r : Request} (h : r.remaining = 0) :
    r.outcome?.isSome = true := by
  unfold remaining at h
  unfold outcome?
  split
  · rfl
  · next c hc =>
      rw [hc] at h
      cases hload : r.load <;> simp_all [Load.remaining, Load.result?]

namespace Pool

variable {store : Store} {pool : Pool} {index : Nat} {r : Request}

variable (store) in
/-- A request that is in a pool stays there, and a turn takes it closer to its end. -/
theorem exists_request_apply
    (h : pool.requests[index]? = some r) (e : Event) :
    ∃ load, (pool.apply store e).requests[index]? = some { r with load } ∧
      ({ r with load } : Request).remaining ≤ r.remaining - turns index [e] := by
  have hlength : index < pool.requests.length := (List.getElem?_eq_some_iff.mp h).1
  have hsame : r.remaining ≤ r.remaining - 0 := Nat.le_refl _
  cases e with
  | load c path => exact ⟨r.load, (List.getElem?_append_left hlength).trans h, hsame⟩
  | submit callbacks paths => exact ⟨r.load, (List.getElem?_append_left hlength).trans h, hsame⟩
  | setClock now => exact ⟨r.load, h, hsame⟩
  | advance k =>
      simp only [apply, advance]
      by_cases hk : k = index
      · subst hk
        simp only [h]
        split
        · next hc => exact ⟨r.load, h, by simp [Request.remaining, hc]⟩
        · next c hc =>
            refine ⟨_, List.getElem?_set_self hlength, ?_⟩
            simpa [turns] using Request.remaining_step hc (pool.world store c.cache)
      · have hturns : turns index [.advance k] = 0 := by simp [turns, hk]
        rw [hturns]
        split
        · exact ⟨r.load, h, hsame⟩
        · split
          · exact ⟨r.load, h, hsame⟩
          · exact ⟨r.load, (List.getElem?_set_ne hk).trans h, hsame⟩

variable (store) in
theorem exists_request_run
    (h : pool.requests[index]? = some r) (events : List Event) :
    ∃ load, (pool.run store events).requests[index]? = some { r with load } ∧
      ({ r with load } : Request).remaining ≤ r.remaining - turns index events := by
  induction events using List.reverseRecOn with
  | nil => exact ⟨r.load, h, Nat.le_refl _⟩
  | append_singleton events e ih =>
      obtain ⟨load, hload, hless⟩ := ih
      obtain ⟨load', hload', hless'⟩ := exists_request_apply store hload e
      have hturns : turns index (events ++ [e]) = turns index events + turns index [e] :=
        List.countP_append
      rw [run_concat, hturns]
      refine ⟨load', hload', Nat.le_trans hless' ?_⟩
      omega

end Pool

/-! ## What is found out -/

/-- What the caches and the requests of a pool know of the files is right. -/
structure Pool.Sound
    (store : Store) (callbacks : List Callback) (paths : List FilePath) (pool : Pool) : Prop where
  cached : ∀ c ∈ callbacks, (pool.caches c.cache).Faithful c.config store paths
  listed : ∀ r ∈ pool.requests, r.path ∈ paths ∧ ∀ c ∈ r.callback?, c ∈ callbacks
  running : ∀ r ∈ pool.requests, ∀ c ∈ r.callback?, r.load.Knows c.config store r.path

namespace Pool

variable {store : Store} {callbacks : List Callback} {paths : List FilePath} {pool : Pool}

theorem sound_initial (store : Store) (callbacks : List Callback) (paths : List FilePath) :
    initial.Sound store callbacks paths where
  cached := by
    intro c _
    exact Cache.faithful_empty c.config store paths
  listed := by
    intro r hr
    cases hr
  running := by
    intro r hr
    cases hr

theorem Sound.append
    (h : pool.Sound store callbacks paths) {requests : List Request}
    (hlisted : ∀ r ∈ requests, r.path ∈ paths ∧ ∀ c ∈ r.callback?, c ∈ callbacks)
    (hstart : ∀ r ∈ requests, r.load = .start) :
    ({ pool with requests := pool.requests ++ requests } : Pool).Sound store callbacks paths where
  cached := h.cached
  listed := by
    intro r hr
    rcases List.mem_append.mp hr with hr | hr
    · exact h.listed r hr
    · exact hlisted r hr
  running := by
    intro r hr c hc
    rcases List.mem_append.mp hr with hr | hr
    · exact h.running r hr c hc
    · rw [hstart r hr]
      trivial

theorem Sound.advance
    (h : pool.Sound store callbacks paths) (hserve : ServeOne callbacks)
    (hspelled : SpelledAlike paths) (index : Nat) :
    (pool.advance store index).Sound store callbacks paths := by
  unfold Pool.advance
  split
  · exact h
  · next r hr =>
      have hmem := List.mem_of_getElem? hr
      obtain ⟨hpath, hcallback⟩ := h.listed r hmem
      split
      · exact h
      · next c hc =>
          have hcache := h.cached c (hcallback c hc)
          have hknows := h.running r hmem c hc
          have hsteps := Load.steps_step c.config r.path (pool.world store c.cache) r.load
          constructor
          · intro d hd
            -- A callback with the same cache has the same configuration.
            by_cases hsame : d.cache = c.cache
            · rw [hserve d hd c (hcallback c hc) hsame]
              simp only [hsame, Function.update_self]
              exact hcache.of_steps hspelled hpath hknows hsteps
            · simp only [Function.update_of_ne hsame]
              exact h.cached d hd
          · intro q hq
            rcases List.mem_or_eq_of_mem_set hq with hq | rfl
            · exact h.listed q hq
            · exact ⟨hpath, hcallback⟩
          · intro q hq d hd
            rcases List.mem_or_eq_of_mem_set hq with hq | rfl
            · exact h.running q hq d hd
            · rw [Option.mem_def.mp hc] at hd
              cases hd
              exact hknows.of_steps hcache hpath hsteps

theorem Sound.apply
    (h : pool.Sound store callbacks paths) (hserve : ServeOne callbacks)
    (hspelled : SpelledAlike paths) {e : Event} (hcallbacks : callbacksOf [e] ⊆ callbacks)
    (hpaths : pathsOf [e] ⊆ paths) :
    (pool.apply store e).Sound store callbacks paths := by
  cases e with
  | load c path =>
      apply h.append
      · intro r hr
        rw [List.mem_singleton.mp hr]
        constructor
        · exact hpaths (by simp [pathsOf])
        · rintro d ⟨⟩
          exact hcallbacks (by simp [callbacksOf])
      · intro r hr
        rw [List.mem_singleton.mp hr]
  | submit submitted asked =>
      apply h.append
      · intro r hr
        obtain ⟨path, hpath, rfl⟩ := List.mem_map.mp hr
        constructor
        · apply hpaths
          simpa [pathsOf, Request.ofPath] using hpath
        · intro c hc
          have hmem : c ∈ submitted := List.mem_of_find?_eq_some hc
          exact hcallbacks (by simpa [callbacksOf] using hmem)
      · intro r hr
        obtain ⟨path, -, rfl⟩ := List.mem_map.mp hr
        rfl
  | advance index => exact h.advance hserve hspelled index
  | setClock now => exact ⟨h.cached, h.listed, h.running⟩

/-- Whatever happens, what the caches and the requests know is right. -/
theorem sound_run
    {events : List Event} (hserve : ServeOne callbacks) (hspelled : SpelledAlike paths)
    (hcallbacks : callbacksOf events ⊆ callbacks) (hpaths : pathsOf events ⊆ paths) :
    (initial.run store events).Sound store callbacks paths := by
  induction events using List.reverseRecOn with
  | nil => exact sound_initial store callbacks paths
  | append_singleton events e ih =>
      rw [callbacksOf, List.flatMap_append, List.append_subset] at hcallbacks
      rw [pathsOf, List.flatMap_append, List.append_subset] at hpaths
      rw [run_concat]
      apply Sound.apply _ hserve hspelled hcallbacks.2 hpaths.2
      exact ih hcallbacks.1 hpaths.1

end Pool

/-! ## Outcomes -/

theorem firstAccepting?_map_config (callbacks : List Callback) (path : FilePath) :
    firstAccepting? path (callbacks.map Callback.config) =
      (Request.ofPath callbacks path).callback?.map Callback.config :=
  List.find?_map

/-- A request that has ended has the outcome that its path has all alone. -/
theorem Request.outcome?_eq
    {store : Store} {callbacks : List Callback} {r : Request} {o : Outcome}
    (hcallback : r.callback? = (ofPath callbacks r.path).callback?)
    (hknows : ∀ c ∈ r.callback?, r.load.Knows c.config store r.path)
    (h : r.outcome? = some o) :
    o = alone store (callbacks.map Callback.config) r.path := by
  have hfirst := firstAccepting?_map_config callbacks r.path
  rw [← hcallback] at hfirst
  cases hc : r.callback? with
  | none =>
      rw [hc] at hfirst
      rw [alone_of_none hfirst]
      simpa [outcome?, hc] using h.symm
  | some c =>
      rw [hc] at hfirst
      rw [alone_of_some hfirst]
      have hload := hknows c hc
      simp only [outcome?, hc, Option.map_eq_some_iff] at h
      obtain ⟨result, hresult, rfl⟩ := h
      cases hdone : r.load <;> simp_all [Load.result?, Load.Knows]

theorem eq_map_of_mapM_outcome?
    {f : FilePath → Outcome} {requests : List Request} {outcomes : List Outcome}
    (hf : ∀ r ∈ requests, ∀ o, r.outcome? = some o → o = f r.path)
    (h : requests.mapM Request.outcome? = some outcomes) :
    outcomes = (requests.map Request.path).map f := by
  induction requests generalizing outcomes with
  | nil => simpa using h.symm
  | cons r requests ih =>
      simp only [List.mapM_cons, Option.bind_eq_bind, Option.bind_eq_some_iff, Option.pure_def,
        Option.some.injEq] at h
      obtain ⟨o, ho, rest, hrest, rfl⟩ := h
      rw [hf r List.mem_cons_self o ho,
        ih (fun q hq => hf q (List.mem_cons_of_mem _ hq)) hrest]
      rfl

theorem isSome_mapM_outcome?
    {requests : List Request} (h : ∀ r ∈ requests, r.outcome?.isSome = true) :
    (requests.mapM Request.outcome?).isSome = true := by
  induction requests with
  | nil => rfl
  | cons r requests ih =>
      obtain ⟨o, ho⟩ := Option.isSome_iff_exists.mp (h r List.mem_cons_self)
      obtain ⟨rest, hrest⟩ :=
        Option.isSome_iff_exists.mp (ih fun q hq => h q (List.mem_cons_of_mem _ hq))
      simp [ho, hrest]

namespace Pool

variable {store : Store} {callbacks : List Callback} {paths : List FilePath}
  {earlier later : List Event} {i : Nat}

variable (store callbacks earlier later) in
theorem exists_request_of_submit (hi : i < paths.length) :
    ∃ load,
      (initial.run store (earlier ++ .submit callbacks paths :: later)).requests[
          (initial.run store earlier).requests.length + i]? =
        some { Request.ofPath callbacks paths[i] with load } ∧
      ({ Request.ofPath callbacks paths[i] with load } : Request).remaining ≤
        6 - turns ((initial.run store earlier).requests.length + i) later := by
  have hsubmit : ((initial.run store earlier).apply store (.submit callbacks paths)).requests[
      (initial.run store earlier).requests.length + i]? =
        some (Request.ofPath callbacks paths[i]) := by
    simp [apply, hi]
  obtain ⟨load, hload, hless⟩ := exists_request_run store hsubmit later
  refine ⟨load, ?_, Nat.le_trans hless (Nat.sub_le_sub_right ?_ _)⟩
  · rw [run_append]
    exact hload
  · unfold Request.remaining
    split
    · exact Nat.zero_le _
    · exact Nat.le_refl _

theorem getElem?_batch (pool : Pool) (first : Nat) {count i : Nat} (hi : i < count) :
    (pool.batch first count)[i]? = pool.requests[first + i]? := by
  rw [batch, List.getElem?_take, if_pos hi, List.getElem?_drop]

theorem map_path_batch :
    ((initial.run store (earlier ++ .submit callbacks paths :: later)).batch
      (initial.run store earlier).requests.length paths.length).map Request.path = paths := by
  apply List.ext_getElem?
  intro i
  rw [List.getElem?_map]
  by_cases hi : i < paths.length
  · obtain ⟨load, hload, -⟩ := exists_request_of_submit store callbacks earlier later hi
    rw [getElem?_batch _ _ hi, hload, List.getElem?_eq_getElem hi]
    rfl
  · rw [List.getElem?_eq_none (Nat.le_of_not_lt hi), batch, List.getElem?_take, if_neg hi]
    rfl

/-- The requests of a batch are those that were made of its paths. -/
theorem of_mem_batch
    {r : Request}
    (hr : r ∈ (initial.run store (earlier ++ .submit callbacks paths :: later)).batch
      (initial.run store earlier).requests.length paths.length) :
    r ∈ (initial.run store (earlier ++ .submit callbacks paths :: later)).requests ∧
      r.callback? = (Request.ofPath callbacks r.path).callback? ∧
      ∃ i < paths.length,
        r.remaining ≤ 6 - turns ((initial.run store earlier).requests.length + i) later := by
  refine ⟨List.mem_of_mem_drop (List.mem_of_mem_take hr), ?_⟩
  obtain ⟨i, hi⟩ := List.getElem?_of_mem hr
  have hcount : i < paths.length := by
    have hlength := (List.getElem?_eq_some_iff.mp hi).1
    rw [batch, List.length_take] at hlength
    omega
  obtain ⟨load, hload, hless⟩ := exists_request_of_submit store callbacks earlier later hcount
  rw [getElem?_batch _ _ hcount, hload, Option.some.injEq] at hi
  rw [← hi]
  exact ⟨rfl, i, hcount, hless⟩

/-- Paths have been loaded once each of them had its turns. -/
theorem isSome_outcomes?_of_turns
    (hturns : ∀ i < paths.length,
      6 ≤ turns ((initial.run store earlier).requests.length + i) later) :
    ((initial.run store (earlier ++ .submit callbacks paths :: later)).outcomes?
      (initial.run store earlier).requests.length paths.length).isSome = true := by
  apply isSome_mapM_outcome?
  intro r hr
  obtain ⟨-, -, i, hi, hless⟩ := of_mem_batch hr
  have henough := hturns i hi
  apply Request.isSome_outcome?
  omega

/-- Paths that have been loaded have the outcomes that they have alone. -/
theorem outcomes?_eq_alone
    {outcomes : List Outcome}
    (hserve : ServeOne (callbacksOf (earlier ++ .submit callbacks paths :: later)))
    (hspelled : SpelledAlike (pathsOf (earlier ++ .submit callbacks paths :: later)))
    (h : (initial.run store (earlier ++ .submit callbacks paths :: later)).outcomes?
      (initial.run store earlier).requests.length paths.length = some outcomes) :
    outcomes = paths.map (alone store (callbacks.map Callback.config)) := by
  have hsound : (initial.run store _).Sound store _ _ :=
    sound_run hserve hspelled (List.Subset.refl _) (List.Subset.refl _)
  have hmap := eq_map_of_mapM_outcome?
    (f := alone store (callbacks.map Callback.config)) ?_ h
  · rwa [map_path_batch] at hmap
  · intro r hr o ho
    obtain ⟨hmem, hcallback, -⟩ := of_mem_batch hr
    exact Request.outcome?_eq hcallback (hsound.running r hmem) ho

/-- Loading paths one after another, with the caches of a pool, gives what they give alone. -/
theorem Sound.session_run
    {known : List Callback} {asked : List FilePath} {pool : Pool}
    (h : pool.Sound store known asked) (hcallbacks : callbacks ⊆ known) (hpaths : paths ⊆ asked)
    (hspelled : SpelledAlike asked) {s : Session} (hstore : s.world.store = store)
    (hmembers : s.members = callbacks.map fun c => (c.config, pool.caches c.cache)) :
    (s.run paths).1 = paths.map (alone store (callbacks.map Callback.config)) := by
  have hfaithful : s.Faithful paths := by
    apply Session.faithful_of_members
    intro m hm
    rw [hmembers] at hm
    obtain ⟨c, hc, rfl⟩ := List.mem_map.mp hm
    rw [hstore]
    exact (h.cached c (hcallbacks hc)).mono hpaths
  have hconfigs : s.configs = callbacks.map Callback.config := by
    rw [← s.map_fst_members, hmembers, List.map_map]
    rfl
  rw [Session.run_of_faithful hfaithful (hspelled.mono hpaths), hstore, hconfigs]

end Pool

/-- A module that a path gives alone refers to what its own template refers to. -/
theorem exists_references_of_alone
    {store : Store} {configs : List Config} {path asked : FilePath} {text : String}
    (h : alone store configs asked = .loaded path (.contents text)) :
    ∃ config ∈ configs, ∃ source artifact,
      store.read path = .ok source ∧
      (Spec.precompile (config.optionsFor path) source).result = .ok artifact ∧
      text = Module.text config.style artifact
        (.ofLookups (Spec.precompile (config.optionsFor path) source).lookups) config.table := by
  cases hfirst : firstAccepting? asked configs with
  | none =>
      rw [alone_of_none hfirst] at h
      cases h
  | some config =>
      rw [alone_of_some hfirst] at h
      cases hread : store.read asked with
      | error e =>
          rw [hread] at h
          cases h
      | ok source =>
          rw [hread] at h
          cases hresult : (Spec.precompile (config.optionsFor asked) source).result with
          | error failure => cases failure <;> simp [cold, build, hresult, Outcome.ofResult] at h
          | ok artifact =>
              simp only [cold, build, hresult, Outcome.ofResult, Outcome.loaded.injEq,
                LoadOutput.contents.injEq] at h
              obtain ⟨rfl, rfl⟩ := h
              exact ⟨config, List.mem_of_find?_eq_some hfirst, source, artifact, hread, hresult,
                rfl⟩

/-- Outcomes of paths are those of each of them alone, and their errors are reported one by one. -/
structure Separate
    (store : Store) (configs : List Config) (paths : List FilePath) (outcomes : List Outcome) :
    Prop where
  outcomes_eq : outcomes = paths.map (alone store configs)
  /-- Of the files, only the one at a path matters for it. -/
  unaffected : ∀ path ∈ paths, ∀ changed : Store, changed.read path = store.read path →
    alone changed configs path = alone store configs path
  /-- A module refers to what its own template refers to. -/
  references : ∀ path text, .loaded path (.contents text) ∈ outcomes →
    ∃ config ∈ configs, ∃ source artifact,
      store.read path = .ok source ∧
      (Spec.precompile (config.optionsFor path) source).result = .ok artifact ∧
      text = Module.text config.style artifact
        (.ofLookups (Spec.precompile (config.optionsFor path) source).lookups) config.table
  /-- The report has one diagnostic for each path that could not be read or compiled. -/
  reported : ∀ s : Session, s.outcomes = outcomes →
    s.report.1 = (outcomes.filter Outcome.hasFailed).length ∧
      ∃ found,
        s.report.2.diagnostics.reported = s.diagnostics.reported ++ found ∧
        List.Forall₂ (fun o d => d.path = o.path ∧ o.messages = [d.text])
          (outcomes.filter Outcome.hasFailed) found

theorem separate_map_alone
    {store : Store} (hscans : Scannable store) (configs : List Config) (paths : List FilePath) :
    Separate store configs paths (paths.map (alone store configs)) where
  outcomes_eq := rfl
  unaffected := by
    intro path _ changed hread
    exact alone_congr hread configs
  references := by
    intro path text hmem
    obtain ⟨asked, -, halone⟩ := List.mem_map.mp hmem
    exact exists_references_of_alone halone
  reported := by
    intro s hs
    have hfound : List.Forall₂ (fun o d => d.path = o.path ∧ o.messages = [d.text])
        (s.outcomes.filter Outcome.hasFailed) (diagnosticsOf s.outcomes) := by
      apply forall₂_diagnosticsOf
      intro o ho hfailed
      rw [hs] at ho
      obtain ⟨path, -, rfl⟩ := List.mem_map.mp ho
      exact exists_messages_alone hscans hfailed
    rw [← hs]
    exact ⟨hfound.length_eq.symm, _, Diagnostics.reported_reportAll _ _, hfound⟩

/-- Whatever was loaded before, and in whatever order the steps come, a host that has loaded paths
has for each of them the outcome that it has all alone, and it has loaded them once each had its
turns.  Loading them one after another gives the same. -/
theorem submit_separate
    {store : Store} {callbacks : List Callback} {paths : List FilePath}
    {earlier later : List Pool.Event}
    (hserve : ServeOne (callbacksOf (earlier ++ .submit callbacks paths :: later)))
    (hspelled : SpelledAlike (pathsOf (earlier ++ .submit callbacks paths :: later)))
    (hscans : Scannable store) :
    let before := Pool.initial.run store earlier
    let pool := Pool.initial.run store (earlier ++ .submit callbacks paths :: later)
    ((∀ i < paths.length, 6 ≤ turns (before.requests.length + i) later) →
      (pool.outcomes? before.requests.length paths.length).isSome = true) ∧
    ∀ outcomes, pool.outcomes? before.requests.length paths.length = some outcomes →
      Separate store (callbacks.map Callback.config) paths outcomes ∧
      ∀ s : Session, s.world.store = store →
        s.members = callbacks.map (fun c => (c.config, before.caches c.cache)) →
        (s.run paths).1 = outcomes := by
  intro before pool
  refine ⟨Pool.isSome_outcomes?_of_turns, ?_⟩
  intro outcomes houtcomes
  rw [Pool.outcomes?_eq_alone hserve hspelled houtcomes]
  refine ⟨separate_map_alone hscans _ paths, ?_⟩
  intro s hstore hmembers
  have hbefore : before.Sound store _ _ :=
    Pool.sound_run hserve hspelled (by simp [callbacksOf]) (by simp [pathsOf])
  apply hbefore.session_run ?_ ?_ hspelled hstore hmembers
  · intro c hc
    simp [callbacksOf, hc]
  · intro path hpath
    simp [pathsOf, hpath]

/-- A template from the future, and one that cannot be compiled. -/
def crowdedStore : Store :=
  (Store.empty.write { text := "page.hbs" } "\x7b\x7bshout name\x7d\x7d" (.seconds 5000000000)).write
    { text := "broken.hbs" } "\x7b\x7b#if name\x7d\x7d" Store.pastTime

def crowdedCallbacks : List Callback :=
  [{ config := { Config.initial with helpers := [("shout", "./shout")] }, cache := 0 },
    { config := { Config.initial with extensions := ["txt"] }, cache := 1 }]

def crowdedPaths : List FilePath :=
  [{ text := "page.hbs" }, { text := "broken.hbs" }, { text := "page.hbs" },
    { text := "notes.txt" }, { text := "picture.png" }]

/-- One load of each callback, of which the first has read its file but has not kept its module. -/
def crowdedStart : List Pool.Event :=
  crowdedCallbacks.map (.load · { text := "page.hbs" }) ++ List.replicate 4 (.advance 0)

/-- All requests take turns, and meanwhile the clock is turned back. -/
def crowdedTurns : List Pool.Event :=
  .setClock (-1) :: (List.replicate 6 ((List.range 7).map Pool.Event.advance)).flatten

theorem scannable_empty : Scannable .empty := by
  intro path source hread
  cases hread

theorem Scannable.write
    {store : Store} (h : Scannable store) (path : FilePath) {contents : String}
    (hcontents : Template.scan contents ≠ .error .backwards) (now : Time) :
    Scannable (store.write path contents now) := by
  intro p source hread
  simp only [Store.read, Store.write, PathMap.get?_insert] at hread
  by_cases hsame : path.same p = true
  · simp only [if_pos hsame, Except.ok.injEq] at hread
    rwa [← hread]
  · rw [if_neg hsame] at hread
    exact h p source hread

/-- Callbacks with caches of their own serve one configuration each. -/
theorem serveOne_of_nodup
    {callbacks : List Callback} (h : (callbacks.map Callback.cache).Nodup) :
    ServeOne callbacks := by
  intro a ha b hb hcache
  rw [List.inj_on_of_nodup_map h ha hb hcache]

theorem ServeOne.mono
    {callbacks callbacks' : List Callback} (h : ServeOne callbacks)
    (hcallbacks : callbacks' ⊆ callbacks) :
    ServeOne callbacks' := by
  intro a ha b hb
  exact h a (hcallbacks ha) b (hcallbacks hb)

theorem crowded_separate :
    let events := crowdedStart ++ .submit crowdedCallbacks crowdedPaths :: crowdedTurns
    ServeOne (callbacksOf events) ∧ SpelledAlike (pathsOf events) ∧ Scannable crowdedStore ∧
    ∃ outcomes,
      (Pool.initial.run crowdedStore events).outcomes? 2 5 = some outcomes ∧
      Separate crowdedStore (crowdedCallbacks.map Callback.config) crowdedPaths outcomes := by
  intro events
  have hserve : ServeOne (callbacksOf events) := by
    have hevents : callbacksOf events = crowdedCallbacks ++ crowdedCallbacks := rfl
    rw [hevents]
    have hnodup : (crowdedCallbacks.map Callback.cache).Nodup := by decide
    exact (serveOne_of_nodup hnodup).mono (by simp)
  have hspelled : SpelledAlike (pathsOf events) := by
    unfold SpelledAlike
    decide +kernel
  have hscans : Scannable crowdedStore :=
    (scannable_empty.write _ (by decide +kernel) _).write _ (by decide +kernel) _
  have hfirst : (Pool.initial.run crowdedStore crowdedStart).requests.length = 2 := by
    decide +kernel
  obtain ⟨hreturns, hseparate⟩ := submit_separate hserve hspelled hscans
  rw [hfirst] at hreturns hseparate
  obtain ⟨outcomes, houtcomes⟩ := Option.isSome_iff_exists.mp (hreturns (by decide +kernel))
  exact ⟨hserve, hspelled, hscans, outcomes, houtcomes, (hseparate outcomes houtcomes).1⟩

end Loading
end TemplateModules
