import Mathlib.Data.List.Induction
import Mathlib.Data.List.Infix
import TemplateModules.Proofs.Files.Map
import TemplateModules.Proofs.Loading.Cold

/-!
# Loads one after another

Loads of one configuration follow each other and share a cache, and between them files change and
the clock is set in any way.

A load either finds a fresh module and counts a hit, or counts a miss, and then the compiler is
called once if the file can be read.  Afterwards the cache has a module of the path if and only if
the load has returned it, and of other paths what it had.  Hence the cache has the modules of those
paths whose latest load has returned one, and a module that is younger than its file is returned
without compiling as long as the file stays as it is.
-/

namespace TemplateModules
namespace Loading

/-! ## One load -/

/-- The module that a cache has of a path. -/
def Cache.text? (c : Cache) (path : FilePath) : Option String :=
  (c.lookup path).map CacheEntry.contents

/-- The cache of a world after it was found to have no fresh module of a path. -/
inductive Missed (path : FilePath) (w : World) : Cache → Prop
  | absent (hnone : w.cache.lookup path = none) : Missed path w w.cache.countMiss
  | stale (entry : CacheEntry) (hentry : w.cache.lookup path = some entry)
      (hstale : entry.isFresh (w.store.modified? path) = false) :
      Missed path w (w.cache.erase path).countInvalidation.countMiss

/-- What a load of a path returns, and what it makes of a world. -/
inductive Loads (config : Config) (path : FilePath) (w : World) : LoadResult → World → Prop
  | hit (entry : CacheEntry) (hentry : w.cache.lookup path = some entry)
      (hfresh : entry.isFresh (w.store.modified? path) = true) :
      Loads config path w (.ok (.contents entry.contents)) { w with cache := w.cache.countHit }
  | unreadable (c : Cache) (e : FileError) (hmissed : Missed path w c)
      (hread : w.store.read path = .error e) :
      Loads config path w (.error (.file e)) { w.tick with cache := c }
  | compiled (c : Cache) (source text : String) (hmissed : Missed path w c)
      (hread : w.store.read path = .ok source)
      (hbuild : build config path source = .ok (.contents text)) :
      Loads config path w (.ok (.contents text))
        { w.tick with cache := c.insert path text w.tick.clock, compiles := w.compiles + 1 }
  | rejected (c : Cache) (source : String) (hmissed : Missed path w c)
      (hread : w.store.read path = .ok source)
      (hbuild : ∀ text, build config path source ≠ .ok (.contents text)) :
      Loads config path w (build config path source)
        { w.tick with cache := c, compiles := w.compiles + 1 }

section

variable {config : Config} {path : FilePath} {w w' : World} {result : LoadResult}

/-- What is left of a load that has found no fresh module. -/
theorem Missed.loads {c : Cache} (h : Missed path w c) :
    Loads config path w (Load.missed.finish config path { w with cache := c }).1
      (Load.missed.finish config path { w with cache := c }).2 := by
  have htimed : Load.missed.finish config path { w with cache := c } =
      (Load.timed w.tick.clock).finish config path { w.tick with cache := c } :=
    Load.Steps.time.finish
  rw [htimed]
  cases hread : w.store.read path with
  | error e =>
      have hunreadable : ({ w.tick with cache := c } : World).store.read path = .error e := hread
      rw [(Load.Steps.unreadable hunreadable).finish, Load.finish_done]
      exact .unreadable c e h hread
  | ok source =>
      have hreadable : ({ w.tick with cache := c } : World).store.read path = .ok source := hread
      rw [(Load.Steps.read hreadable).finish]
      by_cases hbuilt : ∃ text, build config path source = .ok (.contents text)
      · obtain ⟨text, hbuild⟩ := hbuilt
        rw [(Load.Steps.keep hbuild).finish, Load.finish_done]
        exact .compiled c source text h hread hbuild
      · have hbuild := not_exists.mp hbuilt
        rw [(Load.Steps.reject hbuild).finish, Load.finish_done]
        exact .rejected c source h hread hbuild

theorem loads_load (config : Config) (path : FilePath) (w : World) :
    Loads config path w (load config path w).1 (load config path w).2 := by
  rw [load]
  cases hentry : w.cache.lookup path with
  | none =>
      rw [(Load.Steps.absent hentry).finish]
      exact (Missed.absent hentry).loads
  | some entry =>
      rw [(Load.Steps.present hentry).finish]
      cases hfresh : entry.isFresh (w.store.modified? path) with
      | true =>
          rw [(Load.Steps.hit hfresh).finish, Load.finish_done]
          exact .hit entry hentry hfresh
      | false =>
          rw [(Load.Steps.outdated hfresh).finish, Load.Steps.invalidate.finish]
          exact (Missed.stale entry hentry hfresh).loads

/-! ### What a load accounts for -/

/-- A load of a path is accounted for in a world: it was either a hit, which calls no compiler, or a
miss, which calls it once if the file can be read; the cache has a module of the path if and only if
the load has returned it, and of every other path it has the entry that it had. -/
structure Accounted (path : FilePath) (w : World) (result : LoadResult) (w' : World) : Prop where
  counted :
    (w'.cache.hits = w.cache.hits + 1 ∧ w'.cache.misses = w.cache.misses ∧
        w'.cache.invalidations = w.cache.invalidations ∧ w'.compiles = w.compiles) ∨
      (w'.cache.hits = w.cache.hits ∧ w'.cache.misses = w.cache.misses + 1 ∧
        (w'.cache.invalidations = w.cache.invalidations ∨
          w'.cache.invalidations = w.cache.invalidations + 1) ∧
        w'.compiles = w.compiles + if (w.store.read path).isOk then 1 else 0)
  held : ∀ q, path.same q = true → ∀ text,
    w'.cache.text? q = some text ↔ result = .ok (.contents text)
  others : ∀ q, ¬path.same q = true → w'.cache.lookup q = w.cache.lookup q

theorem Missed.lookup {c : Cache} (h : Missed path w c) (q : FilePath) :
    c.lookup q = if path.same q = true then none else w.cache.lookup q := by
  cases h with
  | absent hnone =>
      change w.cache.entries.get? q = _
      by_cases hsame : path.same q = true
      · rw [if_pos hsame, ← PathMap.get?_congr hsame]
        exact hnone
      · rw [if_neg hsame]
        rfl
  | stale entry hentry hstale => exact PathMap.get?_erase w.cache.entries path q

theorem Missed.counted {c : Cache} (h : Missed path w c) :
    c.hits = w.cache.hits ∧ c.misses = w.cache.misses + 1 ∧
      (c.invalidations = w.cache.invalidations ∨
        c.invalidations = w.cache.invalidations + 1) := by
  cases h with
  | absent hnone => exact ⟨rfl, rfl, .inl rfl⟩
  | stale entry hentry hstale => exact ⟨rfl, rfl, .inr rfl⟩

/-- What a load that keeps no module leaves of the cache. -/
theorem Missed.accounted {c : Cache} {clock : Time} {compiles : Nat} (h : Missed path w c)
    (hcompiles : compiles = w.compiles + if (w.store.read path).isOk then 1 else 0)
    (hresult : ∀ text, result ≠ .ok (.contents text)) :
    Accounted path w result { w with cache := c, clock, compiles } where
  counted := by
    obtain ⟨hhits, hmisses, hinvalidations⟩ := h.counted
    exact .inr ⟨hhits, hmisses, hinvalidations, hcompiles⟩
  held q hsame text := by
    have hnone : c.text? q = none := by rw [Cache.text?, h.lookup, if_pos hsame, Option.map_none]
    rw [hnone]
    exact ⟨nofun, fun hcontents => absurd hcontents (hresult text)⟩
  others q hother := by rw [h.lookup, if_neg hother]

theorem Loads.accounted (h : Loads config path w result w') : Accounted path w result w' := by
  cases h with
  | hit entry hentry hfresh =>
      refine ⟨.inl ⟨rfl, rfl, rfl, rfl⟩, ?_, fun _ _ => rfl⟩
      intro q hsame text
      have hkept : w.cache.countHit.text? q = some entry.contents := by
        change (w.cache.entries.get? q).map CacheEntry.contents = _
        rw [← PathMap.get?_congr hsame]
        exact congrArg (Option.map CacheEntry.contents) hentry
      rw [hkept]
      simp
  | unreadable c e hmissed hread =>
      have hunread : (w.store.read path).isOk = false := by rw [hread]; rfl
      exact hmissed.accounted (by rw [hunread]; rfl) nofun
  | rejected c source hmissed hread hbuild =>
      have hopened : (w.store.read path).isOk = true := by rw [hread]; rfl
      exact hmissed.accounted (by rw [hopened]; rfl) hbuild
  | compiled c source text hmissed hread hbuild =>
      have hlookup : ∀ q, (c.insert path text w.tick.clock).lookup q =
          if path.same q = true then some { contents := text, timestamp := w.tick.clock }
          else c.lookup q :=
        fun q => PathMap.get?_insert c.entries path q _
      refine ⟨.inr ?_, ?_, ?_⟩
      · obtain ⟨hhits, hmisses, hinvalidations⟩ := hmissed.counted
        refine ⟨hhits, hmisses, hinvalidations, ?_⟩
        rw [hread]
        rfl
      · intro q hsame text'
        rw [Cache.text?, hlookup, if_pos hsame]
        simp
      · intro q hother
        rw [hlookup, if_neg hother, hmissed.lookup, if_neg hother]

theorem accounted_load (config : Config) (path : FilePath) (w : World) :
    Accounted path w (load config path w).1 (load config path w).2 :=
  (loads_load config path w).accounted

end

/-! ## Sequences of loads -/

/-- What happens next: a load, or something between loads. -/
inductive Turn where
  | load (path : FilePath)
  /-- The files are changed in some way, at a new reading of the clock. -/
  | change (f : Time → Store → Store)
  /-- Time passes, or the clock is set back. -/
  | wait (duration : Int)

/-- The paths that are loaded, in their order. -/
def pathsLoaded (turns : List Turn) : List FilePath :=
  turns.filterMap fun turn =>
    match turn with
    | .load path => some path
    | _ => none

namespace World

/-- A world in which nothing has been loaded. -/
def initial (store : Store) (clock : Time) : World :=
  { store, cache := .empty, clock, compiles := 0 }

/-- What a turn makes of a world. -/
def take (config : Config) (w : World) : Turn → World
  | .load path => (Loading.load config path w).2
  | .change f => { w.tick with store := f w.tick.clock w.store }
  | .wait duration => { w with clock := w.clock + duration }

/-- What turns make of a world, one after another. -/
def run (config : Config) (w : World) (turns : List Turn) : World :=
  turns.foldl (take config) w

theorem run_concat (config : Config) (w : World) (turns : List Turn) (turn : Turn) :
    w.run config (turns ++ [turn]) = (w.run config turns).take config turn := by
  simp [run]

end World

/-- What a turn returns for a path, if it loads it. -/
def Turn.returned? (config : Config) (w : World) (path : FilePath) : Turn → Option LoadResult
  | .load p => if p.same path then some (Loading.load config p w).1 else none
  | _ => none

/-- What the latest load of a path has returned, if the path was loaded. -/
def latest? (config : Config) (w : World) : List Turn → FilePath → Option LoadResult
  | [], _ => none
  | turn :: turns, path =>
      (latest? config (w.take config turn) turns path).or (turn.returned? config w path)

section

variable {config : Config} {w : World} {turns : List Turn} {path : FilePath}

theorem pathsLoaded_concat (turns : List Turn) (turn : Turn) :
    pathsLoaded (turns ++ [turn]) = pathsLoaded turns ++ pathsLoaded [turn] :=
  List.filterMap_append

theorem latest?_concat (config : Config) (w : World) (turns : List Turn) (turn : Turn)
    (path : FilePath) :
    latest? config w (turns ++ [turn]) path =
      (turn.returned? config (w.run config turns) path).or (latest? config w turns path) := by
  induction turns generalizing w with
  | nil => rw [List.nil_append, latest?, latest?, latest?, Option.none_or, Option.or_none]; rfl
  | cons first turns ih => rw [List.cons_append, latest?, ih, Option.or_assoc]; rfl

theorem latest?_eq_none (h : ∀ p ∈ pathsLoaded turns, ¬p.same path = true) :
    latest? config w turns path = none := by
  induction turns generalizing w with
  | nil => rfl
  | cons turn turns ih =>
      have hreturned : turn.returned? config w path = none := by
        cases turn with
        | load p => exact if_neg (h p List.mem_cons_self)
        | change f => rfl
        | wait duration => rfl
      have hlater : ∀ p ∈ pathsLoaded turns, ¬p.same path = true := by
        intro p hp
        obtain ⟨turn', hturn', hpath⟩ := List.mem_filterMap.mp hp
        exact h p (List.mem_filterMap.mpr ⟨turn', List.mem_cons_of_mem _ hturn', hpath⟩)
      rw [latest?, hreturned, Option.or_none, ih hlater]

/-! ### The cache of a run -/

/-- Each load counts as a hit or as a miss, and an entry is taken away by misses only. -/
theorem counts_run (config : Config) (store : Store) (clock : Time) (turns : List Turn) :
    let w := (World.initial store clock).run config turns
    w.cache.hits + w.cache.misses = (pathsLoaded turns).length ∧
      w.cache.invalidations ≤ w.cache.misses := by
  induction turns using List.reverseRecOn with
  | nil => exact ⟨rfl, Nat.le_refl 0⟩
  | append_singleton turns turn ih =>
      rw [World.run_concat, pathsLoaded_concat, List.length_append]
      cases turn with
      | change f => exact ih
      | wait duration => exact ih
      | load path =>
          have hload : (pathsLoaded [Turn.load path]).length = 1 := rfl
          have hcounted :=
            (accounted_load config path ((World.initial store clock).run config turns)).counted
          rw [hload, World.take]
          dsimp only at ih ⊢
          omega

/-- The cache has a module of a path if and only if the latest load of the path has returned it. -/
theorem text?_run (config : Config) (store : Store) (clock : Time) (turns : List Turn)
    (path : FilePath) (text : String) :
    ((World.initial store clock).run config turns).cache.text? path = some text ↔
      latest? config (World.initial store clock) turns path = some (.ok (.contents text)) := by
  induction turns using List.reverseRecOn with
  | nil => exact ⟨nofun, nofun⟩
  | append_singleton turns turn ih =>
      rw [World.run_concat, latest?_concat]
      cases turn with
      | change f => exact ih
      | wait duration => exact ih
      | load p =>
          have haccounted :=
            accounted_load config p ((World.initial store clock).run config turns)
          rw [World.take, Turn.returned?]
          by_cases hsame : p.same path = true
          · rw [haccounted.held path hsame, if_pos hsame, Option.some_or, Option.some.injEq]
          · rw [Cache.text?, haccounted.others path hsame, if_neg hsame, Option.none_or]
            exact ih

theorem lookup_run_eq_none (config : Config) (store : Store) (clock : Time)
    (h : ∀ p ∈ pathsLoaded turns, ¬p.same path = true) :
    ((World.initial store clock).run config turns).cache.lookup path = none := by
  cases hentry : ((World.initial store clock).run config turns).cache.lookup path with
  | none => rfl
  | some entry =>
      have htext : ((World.initial store clock).run config turns).cache.text? path =
          some entry.contents := by
        rw [Cache.text?, hentry, Option.map_some]
      rw [text?_run, latest?_eq_none h] at htext
      contradiction

theorem Missed.distinct {c : Cache} (h : Missed path w c) (hw : w.cache.entries.Distinct) :
    c.entries.Distinct := by
  cases h with
  | absent hnone => exact hw
  | stale entry hentry hstale => exact hw.erase path

theorem Loads.distinct {w' : World} {result : LoadResult} (h : Loads config path w result w')
    (hw : w.cache.entries.Distinct) :
    w'.cache.entries.Distinct := by
  cases h with
  | hit entry hentry hfresh => exact hw
  | unreadable c e hmissed hread => exact hmissed.distinct hw
  | compiled c source text hmissed hread hbuild => exact (hmissed.distinct hw).insert path _
  | rejected c source hmissed hread hbuild => exact hmissed.distinct hw

theorem distinct_run (config : Config) (store : Store) (clock : Time) (turns : List Turn) :
    ((World.initial store clock).run config turns).cache.entries.Distinct := by
  induction turns using List.reverseRecOn with
  | nil => exact PathMap.distinct_empty
  | append_singleton turns turn ih =>
      rw [World.run_concat]
      cases turn with
      | change f => exact ih
      | wait duration => exact ih
      | load path => exact (loads_load config path _).distinct ih

/-- The cache has as many modules as there are paths whose latest load has returned one. -/
theorem size_run (config : Config) (store : Store) (clock : Time) (turns : List Turn) :
    (((World.initial store clock).run config turns).cache.size : ℕ∞) =
      {c | ∃ path : FilePath, path.components = c ∧ ∃ text,
        latest? config (World.initial store clock) turns path =
          some (.ok (.contents text))}.encard := by
  rw [Cache.size, (distinct_run config store clock turns).size_eq]
  congr 1
  ext c
  simp only [Set.mem_ofPred_eq, ← text?_run, Cache.text?, Cache.lookup]
  simp [Option.isSome_iff_exists]

/-! ### Loads of a file that stays as it is -/

/-- The file of a path stays as it is, whichever of some turns were taken. -/
def Unchanged (config : Config) (w : World) (turns : List Turn) (path : FilePath) (file : File) :
    Prop :=
  ∀ earlier, earlier <+: turns → (w.run config earlier).store.files.get? path = some file

theorem Unchanged.mono {turns' : List Turn} {file : File}
    (h : Unchanged config w turns path file) (hturns : turns' <+: turns) :
    Unchanged config w turns' path file := by
  intro earlier hearlier
  exact h earlier (hearlier.trans hturns)

/-- A world has a fresh module of a path. -/
def HasFresh (w : World) (path : FilePath) (text : String) : Prop :=
  ∃ entry, w.cache.lookup path = some entry ∧ entry.contents = text ∧
    entry.isFresh (w.store.modified? path) = true

theorem HasFresh.not_missed {text : String} {q : FilePath} {c : Cache} (h : HasFresh w path text)
    (hsame : path.same q = true) : ¬Missed q w c := by
  obtain ⟨entry, hentry, -, hfresh⟩ := h
  have hlookup : w.cache.lookup q = some entry :=
    (PathMap.get?_congr hsame w.cache.entries).symm.trans hentry
  have hmodified : w.store.modified? q = w.store.modified? path :=
    congrArg (Option.map File.modified) (PathMap.get?_congr hsame w.store.files).symm
  intro hmissed
  cases hmissed with
  | absent hnone => simp [hlookup] at hnone
  | stale other hother hstale =>
      obtain rfl : other = entry := Option.some.inj (hother.symm.trans hlookup)
      rw [hmodified, hfresh] at hstale
      contradiction

/-- A fresh module is returned without compiling, and it stays where it is. -/
theorem HasFresh.load {text : String} {q : FilePath} (h : HasFresh w path text)
    (hsame : path.same q = true) :
    Loading.load config q w = (.ok (.contents text), { w with cache := w.cache.countHit }) := by
  have hloads := loads_load config q w
  generalize Loading.load config q w = loaded at hloads ⊢
  obtain ⟨result, w'⟩ := loaded
  cases hloads with
  | unreadable c e hmissed hread => exact absurd hmissed (h.not_missed hsame)
  | compiled c source text' hmissed hread hbuild => exact absurd hmissed (h.not_missed hsame)
  | rejected c source hmissed hread hbuild => exact absurd hmissed (h.not_missed hsame)
  | hit entry hentry hfresh =>
      obtain ⟨kept, hkept, htext, -⟩ := h
      obtain rfl : kept = entry := by
        have hlookup : w.cache.lookup q = some kept :=
          (PathMap.get?_congr hsame w.cache.entries).symm.trans hkept
        exact Option.some.inj (hlookup.symm.trans hentry)
      rw [htext]

theorem Loads.store_eq {w' : World} {result : LoadResult} (h : Loads config path w result w') :
    w'.store = w.store := by
  cases h with
  | hit entry hentry hfresh => rfl
  | unreadable c e hmissed hread => rfl
  | compiled c source text hmissed hread hbuild => rfl
  | rejected c source hmissed hread hbuild => rfl

/-- A module stays fresh in a turn that leaves its file as it is. -/
theorem HasFresh.take {text : String} {turn : Turn} (h : HasFresh w path text)
    (hfile : (w.take config turn).store.files.get? path = w.store.files.get? path) :
    HasFresh (w.take config turn) path text := by
  cases turn with
  | wait duration => exact h
  | change f =>
      obtain ⟨entry, hentry, htext, hfresh⟩ := h
      refine ⟨entry, hentry, htext, ?_⟩
      rw [Store.modified?, hfile]
      exact hfresh
  | load p =>
      rw [World.take]
      by_cases hsame : path.same p = true
      · rw [h.load hsame]
        exact h
      · have hother : ¬p.same path = true := by
          rw [FilePath.same_iff] at hsame ⊢
          exact Ne.symm hsame
        obtain ⟨entry, hentry, htext, hfresh⟩ := h
        have hloads := loads_load config p w
        refine ⟨entry, ?_, htext, ?_⟩
        · rw [hloads.accounted.others path hother]
          exact hentry
        · rw [hloads.store_eq]
          exact hfresh

/-- A module stays fresh as long as its file stays as it is. -/
theorem HasFresh.run {text : String} {file : File} (h : HasFresh w path text)
    (hfile : Unchanged config w turns path file) :
    HasFresh (w.run config turns) path text := by
  induction turns using List.reverseRecOn with
  | nil => exact h
  | append_singleton turns turn ih =>
      have hbefore := hfile turns (List.prefix_append turns [turn])
      have hafter := hfile (turns ++ [turn]) List.prefix_rfl
      rw [World.run_concat] at hafter ⊢
      apply HasFresh.take
      · exact ih (hfile.mono (List.prefix_append turns [turn]))
      · rw [hafter, hbefore]

/-- A load that compiles a file which is not younger than the clock leaves a fresh module. -/
theorem hasFresh_of_loads {w' : World} {text : String} {file : File}
    (h : Loads config path w (.ok (.contents text)) w') (hnew : w.cache.lookup path = none)
    (hfile : w.store.files.get? path = some file) (htime : file.modified ≤ w'.clock) :
    HasFresh w' path text := by
  generalize hresult : (.ok (.contents text) : LoadResult) = result at h
  cases h with
  | hit entry hentry hfresh => simp [hnew] at hentry
  | unreadable c e hmissed hread => cases hresult
  | rejected c source hmissed hread hbuild => exact absurd hresult.symm (hbuild text)
  | compiled c source text' hmissed hread hbuild =>
      cases hresult
      refine ⟨{ contents := text, timestamp := w.tick.clock }, ?_, rfl, ?_⟩
      · exact (PathMap.get?_insert c.entries path path _).trans (if_pos (FilePath.same_self path))
      · change CacheEntry.isFresh _ ((w.store.files.get? path).map File.modified) = true
        rw [hfile]
        exact decide_eq_true htime

end

/--
Loads of one configuration are accounted for, whatever happens to the files and the clock between
them.  The cache has one module for each path whose latest load has returned one.  If the first load
of a file returns a module, and the file is not younger than the clock reading of this load, then
all further loads return this module without compiling as long as the file stays as it is.
-/
theorem run_accounted (config : Config) (store : Store) (clock : Time) (turns : List Turn) :
    let start := World.initial store clock
    let w := start.run config turns
    (w.cache.hits + w.cache.misses = (pathsLoaded turns).length ∧
      w.cache.invalidations ≤ w.cache.misses) ∧
    (∀ earlier path later, turns = earlier ++ .load path :: later →
      let before := start.run config earlier
      Accounted path before (load config path before).1 (load config path before).2) ∧
    (w.cache.size : ℕ∞) =
      {c | ∃ path : FilePath, path.components = c ∧ ∃ text,
        latest? config start turns path = some (.ok (.contents text))}.encard ∧
    ∀ earlier path later text file, turns = earlier ++ .load path :: later →
      (∀ p ∈ pathsLoaded earlier, ¬p.same path = true) →
      let first := load config path (start.run config earlier)
      first.1 = .ok (.contents text) →
      file.modified ≤ first.2.clock →
      Unchanged config first.2 later path file →
      ∀ between q rest, later = between ++ .load q :: rest → path.same q = true →
        let before := first.2.run config between
        (load config q before).1 = .ok (.contents text) ∧
          (load config q before).2.compiles = before.compiles := by
  intro start w
  refine ⟨counts_run config store clock turns, ?_, size_run config store clock turns, ?_⟩
  · intro earlier path later _ before
    exact accounted_load config path before
  · intro earlier path later text file _ hfirst first hresult htime hunchanged between q rest
      hlater hsame before
    have hloads := loads_load config path (start.run config earlier)
    have hnew := lookup_run_eq_none config store clock hfirst
    have hfile : (start.run config earlier).store.files.get? path = some file := by
      rw [← hloads.store_eq]
      exact hunchanged [] List.nil_prefix
    rw [hresult] at hloads
    have hfresh : HasFresh before path text := by
      apply HasFresh.run (hasFresh_of_loads hloads hnew hfile htime)
      exact hunchanged.mono (hlater ▸ List.prefix_append between _)
    rw [hfresh.load hsame]
    exact ⟨rfl, rfl⟩

/-- A template that cannot be compiled and one that is not there, and then one that is written,
loaded, and loaded again in another spelling, after the clock was set back. -/
def visitsBefore : List Turn :=
  [.change fun _ store => store.add { text := "t/b.hbs" } "\x7b\x7b",
    .load { text := "t/b.hbs" }, .load { text := "t/c.hbs" },
    .change fun now store => store.write { text := "t/a.hbs" } "A" now]

def visitsAfter : List Turn :=
  [.wait (-5), .change fun _ store => store.remove { text := "t/b.hbs" },
    .load { text := "t/b.hbs" }]

def visits : List Turn :=
  visitsBefore ++ .load { text := "t/a.hbs" } ::
    (visitsAfter ++ [.load { text := "t//a.hbs" }])

theorem visits_accounted :
    let start := World.initial .empty 0
    let w := start.run .initial visits
    w.cache.hits + w.cache.misses = 5 ∧ w.cache.invalidations ≤ w.cache.misses ∧
      ∃ text,
        let first := load .initial { text := "t/a.hbs" } (start.run .initial visitsBefore)
        let before := first.2.run .initial visitsAfter
        first.1 = .ok (.contents text) ∧
          (load .initial { text := "t//a.hbs" } before).1 = .ok (.contents text) ∧
          (load .initial { text := "t//a.hbs" } before).2.compiles = before.compiles := by
  intro start w
  obtain ⟨⟨hcounts, hinvalidations⟩, -, -, hagain⟩ := run_accounted .initial .empty 0 visits
  refine ⟨hcounts, hinvalidations, ?_⟩
  obtain ⟨text, hfirst⟩ : ∃ text,
      (load .initial { text := "t/a.hbs" } (start.run .initial visitsBefore)).1 =
        .ok (.contents text) :=
    exists_contents_of_isSome (by decide +kernel)
  have hunchanged : Unchanged .initial
      (load .initial { text := "t/a.hbs" } (start.run .initial visitsBefore)).2
      (visitsAfter ++ [.load { text := "t//a.hbs" }]) { text := "t/a.hbs" }
      { contents := "A", modified := 4 } := by
    have hall : ∀ turns ∈ (visitsAfter ++ [Turn.load { text := "t//a.hbs" }]).inits,
        (World.run .initial
          (load .initial { text := "t/a.hbs" } (start.run .initial visitsBefore)).2
            turns).store.files.get? { text := "t/a.hbs" } =
          some { contents := "A", modified := 4 } := by decide +kernel
    intro earlier hearlier
    exact hall earlier ((List.mem_inits _ _).mpr hearlier)
  exact ⟨text, hfirst,
    hagain visitsBefore { text := "t/a.hbs" } _ text _ rfl (by decide +kernel) hfirst
      (by decide +kernel) hunchanged visitsAfter { text := "t//a.hbs" } [] rfl (by decide +kernel)⟩

end Loading
end TemplateModules
