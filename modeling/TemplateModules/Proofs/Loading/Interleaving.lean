import Mathlib.Data.List.Induction
import TemplateModules.Proofs.Loading.Cold

/-!
# Loads that run at the same time

Any number of loads of one configuration share a cache.  Their steps come in any order, and between
them files are written and removed and time passes.

The invariant is about a source and a time before it was read: as long as the file of its path is
not younger than this time, it still holds this source.  Every entry of the cache and every load on
its way has such a source, so what a load returns is what a cold load would have returned at some
moment of it.
-/

namespace TemplateModules
namespace Loading

/-! ## Systems -/

/-- A load of a path. -/
structure Running where
  path : FilePath
  load : Load

/-- Loads that share a world. -/
structure System where
  world : World
  loads : List Running

/-- What can happen next. -/
inductive Event where
  | begin (path : FilePath)
  /-- A load takes its next step, if it has one. -/
  | advance (index : Nat)
  /-- A file is written at a new reading of the clock. -/
  | write (path : FilePath) (contents : String)
  | remove (path : FilePath)
  | wait (duration : Nat)

namespace System

/-- A system in which nothing has been loaded. -/
def initial (store : Store) (clock : Time) : System :=
  { world := { store, cache := .empty, clock, compiles := 0 }, loads := [] }

/-- A load takes its next step. -/
def advance (config : Config) (s : System) (index : Nat) : System :=
  match s.loads[index]? with
  | none => s
  | some r =>
      let (load, world) := r.load.step config r.path s.world
      { world, loads := s.loads.set index { r with load } }

/-- What an event makes of a system. -/
def apply (config : Config) (s : System) : Event → System
  | .begin path => { s with loads := s.loads ++ [{ path, load := .start }] }
  | .advance index => s.advance config index
  | .write path contents =>
      let w := s.world.tick
      { s with world := { w with store := w.store.write path contents w.clock } }
  | .remove path => { s with world := { s.world with store := s.world.store.remove path } }
  | .wait duration => { s with world := { s.world with clock := s.world.clock + duration } }

/-- What a sequence of events makes of a system. -/
def run (config : Config) (s : System) (events : List Event) : System :=
  events.foldl (apply config) s

theorem run_concat (config : Config) (s : System) (events : List Event) (e : Event) :
    s.run config (events ++ [e]) = (s.run config events).apply config e := by
  simp [run]

end System

/-- The paths that loads are begun for. -/
def begun (events : List Event) : List FilePath :=
  events.filterMap fun e =>
    match e with
    | .begin path => some path
    | _ => none

/-- Each path is spelled in one way only. -/
def SpelledAlike (paths : List FilePath) : Prop :=
  ∀ p ∈ paths, ∀ q ∈ paths, p.same q = true → p = q

/-! ## Sources that are still up to date -/

/-- A time has passed, and a file of a path that was not changed after it holds a source. -/
structure Settled (w : World) (path : FilePath) (time : Time) (source : String) : Prop where
  passed : time ≤ w.clock
  unchanged : ∀ file, w.store.files.get? path = some file → file.modified ≤ time →
    file.contents = source

/-- A world comes after another one: what was settled stays so. -/
structure Follows (w w' : World) : Prop where
  clock_le : w.clock ≤ w'.clock
  settled : ∀ {path time source}, Settled w path time source → Settled w' path time source

namespace Follows

variable {w w' : World}

theorem of_store_eq
    (hstore : w'.store = w.store) (hclock : w.clock ≤ w'.clock) :
    Follows w w' where
  clock_le := hclock
  settled := by
    intro path time source h
    exact ⟨Int.le_trans h.passed hclock, by rw [hstore]; exact h.unchanged⟩

theorem of_eq (hstore : w'.store = w.store) (hclock : w'.clock = w.clock) : Follows w w' :=
  of_store_eq hstore (Int.le_of_eq hclock.symm)

theorem tick (w : World) : Follows w w.tick :=
  of_store_eq rfl (Int.le_of_lt (Int.lt_add_one_of_le (Int.le_refl w.clock)))

/-- A file that is written now is younger than all that is settled. -/
theorem write (w : World) (path : FilePath) (contents : String) :
    Follows w { w.tick with store := w.tick.store.write path contents w.tick.clock } where
  clock_le := (tick w).clock_le
  settled := by
    intro p time source h
    refine ⟨Int.le_trans h.passed (tick w).clock_le, ?_⟩
    intro file hfile htime
    change (w.store.files.insert path _).get? p = some file at hfile
    rw [PathMap.get?_insert] at hfile
    by_cases hsame : path.same p = true
    · rw [if_pos hsame, Option.some.injEq] at hfile
      have hyounger : w.clock + 1 ≤ time := by
        rw [← hfile] at htime
        exact htime
      exact absurd (Int.le_trans hyounger h.passed) (Int.not_le.mpr (Int.lt_succ w.clock))
    · rw [if_neg hsame] at hfile
      exact h.unchanged file hfile htime

theorem remove (w : World) (path : FilePath) :
    Follows w { w with store := w.store.remove path } where
  clock_le := Int.le_refl _
  settled := by
    intro p time source h
    refine ⟨h.passed, ?_⟩
    intro file hfile htime
    change (w.store.files.erase path).get? p = some file at hfile
    rw [PathMap.get?_erase] at hfile
    by_cases hsame : path.same p = true
    · rw [if_pos hsame] at hfile
      contradiction
    · rw [if_neg hsame] at hfile
      exact h.unchanged file hfile htime

/-- The steps of loads leave the files alone and never turn the clock back. -/
theorem of_steps
    {config : Config} {path : FilePath} {load load' : Load}
    (h : load.Steps config path w load' w') :
    Follows w w' := by
  cases h with
  | time => exact tick w
  | _ => exact of_eq rfl rfl

theorem apply (config : Config) (s : System) (e : Event) :
    Follows s.world (s.apply config e).world := by
  cases e with
  | begin path => exact of_eq rfl rfl
  | advance index =>
      simp only [System.apply, System.advance]
      split
      · exact of_eq rfl rfl
      · exact of_steps (Load.steps_step ..)
  | write path contents => exact write ..
  | remove path => exact remove ..
  | wait duration => exact of_store_eq rfl (Int.le_add_of_nonneg_right (Int.natCast_nonneg _))

end Follows

/-! ## The invariant -/

/-- An entry of a path was built of a source that is settled since its time. -/
def Backed (config : Config) (w : World) (path : FilePath) (entry : CacheEntry) : Prop :=
  ∃ source, build config path source = .ok (.contents entry.contents) ∧
    Settled w path entry.timestamp source

/-- What a load of a path knows is up to date. -/
def Load.Sound (config : Config) (w : World) (path : FilePath) : Load → Prop
  | found entry => Backed config w path entry
  | timed time => time ≤ w.clock
  | opened time source => Settled w path time source
  | _ => True

/-- What the cache and the loads of certain paths know is up to date. -/
structure Sound (config : Config) (paths : List FilePath) (s : System) : Prop where
  cached : ∀ p ∈ paths, ∀ entry, s.world.cache.lookup p = some entry →
    Backed config s.world p entry
  listed : ∀ r ∈ s.loads, r.path ∈ paths
  running : ∀ r ∈ s.loads, r.load.Sound config s.world r.path

theorem Backed.follows
    {config : Config} {w w' : World} {path : FilePath} {entry : CacheEntry}
    (hw : Follows w w') (h : Backed config w path entry) :
    Backed config w' path entry := by
  obtain ⟨source, hbuild, hsettled⟩ := h
  exact ⟨source, hbuild, hw.settled hsettled⟩

theorem Load.Sound.follows
    {config : Config} {w w' : World} {path : FilePath} {load : Load}
    (hw : Follows w w') (h : load.Sound config w path) :
    load.Sound config w' path := by
  cases load with
  | found entry => exact Backed.follows hw h
  | timed time => exact Int.le_trans h hw.clock_le
  | opened time source => exact hw.settled h
  | _ => trivial

theorem sound_initial (config : Config) (paths : List FilePath) (store : Store) (clock : Time) :
    Sound config paths (.initial store clock) where
  cached := by
    intro p _ entry hentry
    cases hentry
  listed := by
    intro r hr
    cases hr
  running := by
    intro r hr
    cases hr

section

variable {config : Config} {paths : List FilePath} {w w' : World} {path : FilePath}
  {load load' : Load}

theorem Load.Sound.of_steps
    (hcached : ∀ entry, w.cache.lookup path = some entry → Backed config w path entry)
    (hload : load.Sound config w path) (hsteps : load.Steps config path w load' w') :
    load'.Sound config w' path := by
  cases hsteps with
  | present hentry => exact hcached _ hentry
  | time => exact Int.le_refl _
  | read hread =>
      constructor
      · exact hload
      · intro file hfile _
        simpa [Store.read, hfile] using hread
  | _ => trivial

/-- The step of a load puts only backed entries into the cache. -/
theorem cached_of_steps
    (hspelled : SpelledAlike paths) (hpath : path ∈ paths)
    (hcached : ∀ p ∈ paths, ∀ entry, w.cache.lookup p = some entry → Backed config w p entry)
    (hload : load.Sound config w path) (hsteps : load.Steps config path w load' w') :
    ∀ p ∈ paths, ∀ entry, w'.cache.lookup p = some entry → Backed config w' p entry := by
  intro p hp entry hentry
  have hw := Follows.of_steps hsteps
  rcases hsteps.lookup hentry with hbefore | ⟨hsame, source, rfl, hbuild⟩
  · exact (hcached p hp entry hbefore).follows hw
  · obtain rfl := hspelled path hpath p hp hsame
    exact ⟨source, hbuild, hw.settled hload⟩

theorem Sound.begin
    {s : System} (h : Sound config paths s) (hpath : path ∈ paths) :
    Sound config paths (s.apply config (.begin path)) where
  cached := h.cached
  listed := by
    intro r hr
    rcases List.mem_append.mp hr with hr | hr
    · exact h.listed r hr
    · rw [List.mem_singleton.mp hr]
      exact hpath
  running := by
    intro r hr
    rcases List.mem_append.mp hr with hr | hr
    · exact h.running r hr
    · rw [List.mem_singleton.mp hr]
      trivial

theorem Sound.advance
    {s : System} (hspelled : SpelledAlike paths) (h : Sound config paths s) (index : Nat) :
    Sound config paths (s.advance config index) := by
  unfold System.advance
  split
  · exact h
  · next r hr =>
      have hmem := List.mem_of_getElem? hr
      have hpath := h.listed r hmem
      have hsteps := Load.steps_step config r.path s.world r.load
      have hw := Follows.of_steps hsteps
      refine ⟨cached_of_steps hspelled hpath h.cached (h.running r hmem) hsteps, ?_, ?_⟩
      · intro other hother
        rcases List.mem_or_eq_of_mem_set hother with hother | rfl
        · exact h.listed other hother
        · exact hpath
      · intro other hother
        rcases List.mem_or_eq_of_mem_set hother with hother | rfl
        · exact (h.running other hother).follows hw
        · exact (h.running r hmem).of_steps (h.cached r.path hpath) hsteps

/-- What is known stays up to date in every world that follows with the same cache. -/
theorem Sound.follows
    {s s' : System} (h : Sound config paths s) (hw : Follows s.world s'.world)
    (hcache : s'.world.cache = s.world.cache) (hloads : s'.loads = s.loads) :
    Sound config paths s' where
  cached := by
    intro p hp entry hentry
    rw [hcache] at hentry
    exact (h.cached p hp entry hentry).follows hw
  listed := by
    rw [hloads]
    exact h.listed
  running := by
    intro r hr
    rw [hloads] at hr
    exact (h.running r hr).follows hw

theorem Sound.apply
    {s : System} (hspelled : SpelledAlike paths) (h : Sound config paths s) (e : Event)
    (he : ∀ path, e = .begin path → path ∈ paths) :
    Sound config paths (s.apply config e) := by
  have hw := Follows.apply config s e
  cases e with
  | begin path => exact h.begin (he path rfl)
  | advance index => exact h.advance hspelled index
  | write path contents => exact h.follows hw rfl rfl
  | remove path => exact h.follows hw rfl rfl
  | wait duration => exact h.follows hw rfl rfl

theorem begun_concat (events : List Event) (e : Event) :
    begun (events ++ [e]) = begun events ++ begun [e] := by
  rw [begun, List.filterMap_append]
  rfl

/-- Whatever happens, what the cache and the loads know stays up to date. -/
theorem sound_run
    (hspelled : SpelledAlike paths) (store : Store) (clock : Time) (events : List Event)
    (hevents : ∀ p ∈ begun events, p ∈ paths) :
    Sound config paths (System.run config (.initial store clock) events) := by
  induction events using List.reverseRecOn with
  | nil => exact sound_initial config paths store clock
  | append_singleton events e ih =>
      rw [System.run_concat]
      rw [begun_concat] at hevents
      apply Sound.apply hspelled
      · apply ih
        intro p hp
        exact hevents p (List.mem_append_left _ hp)
      · intro p he
        apply hevents p
        apply List.mem_append_right
        rw [he]
        exact List.mem_singleton_self p

/-! ## Moments -/

/-- What a load will return whatever else happens, if this is certain. -/
def Load.promised? (config : Config) (path : FilePath) : Load → Option LoadResult
  | opened _ source => some (build config path source)
  | done result => some result
  | _ => none

/-- A fresh entry holds what a cold load makes of the file that is there. -/
theorem Backed.cold_eq
    {entry : CacheEntry} (h : Backed config w path entry)
    (hfresh : entry.isFresh (w.store.modified? path) = true) :
    cold config path (w.store.read path) = .ok (.contents entry.contents) := by
  obtain ⟨source, hbuild, hsettled⟩ := h
  cases hfile : w.store.files.get? path with
  | none => simp [CacheEntry.isFresh, Store.modified?, hfile] at hfresh
  | some file =>
      have htime : file.modified ≤ entry.timestamp := by
        simpa [CacheEntry.isFresh, Store.modified?, hfile] using hfresh
      have hsource := hsettled.unchanged file hfile htime
      rw [← hbuild, ← hsource]
      simp [Store.read, hfile, cold]

/-- A load is certain of its result at first when the file that is there gives this result. -/
theorem promised_of_steps
    {result : LoadResult}
    (hload : load.Sound config w path) (hsteps : load.Steps config path w load' w')
    (h : load'.promised? config path = some result) :
    load.promised? config path = some result ∨
      load.result? = none ∧ cold config path (w.store.read path) = result := by
  cases hsteps with
  | hit hfresh => exact .inr ⟨rfl, (Backed.cold_eq hload hfresh).trans (Option.some.inj h)⟩
  | unreadable hread =>
      rw [hread]
      exact .inr ⟨rfl, Option.some.inj h⟩
  | read hread =>
      rw [hread]
      exact .inr ⟨rfl, Option.some.inj h⟩
  | keep hbuild =>
      rw [Load.promised?, hbuild]
      exact .inl h
  | reject hbuild => exact .inl h
  | rest => exact .inl h
  | _ => cases h

/-- A load that is there after an event was just begun, took a step, or is as it was. -/
theorem load_of_apply
    {s : System} {e : Event} {index : Nat}
    (h : (s.apply config e).loads[index]? = some { path, load }) :
    load = .start ∨
      ∃ before, s.loads[index]? = some { path, load := before } ∧
        (load = before ∨ load = (before.step config path s.world).1) := by
  cases e with
  | begin p =>
      simp only [System.apply] at h
      by_cases hindex : index < s.loads.length
      · rw [List.getElem?_append_left hindex] at h
        exact Or.inr ⟨load, h, Or.inl rfl⟩
      · rw [List.getElem?_append_right (Nat.le_of_not_lt hindex)] at h
        have hmem := List.mem_singleton.mp (List.mem_of_getElem? h)
        injection hmem with _ hload
        exact Or.inl hload
  | advance k =>
      simp only [System.apply, System.advance] at h
      split at h
      · exact Or.inr ⟨load, h, Or.inl rfl⟩
      · next r hr =>
          by_cases hk : k = index
          · subst hk
            have hlength : k < s.loads.length := (List.getElem?_eq_some_iff.mp hr).1
            rw [List.getElem?_set_self hlength] at h
            injection h with h
            injection h with hpath hload
            subst hpath
            exact Or.inr ⟨r.load, hr, Or.inr hload.symm⟩
          · rw [List.getElem?_set_ne hk] at h
            exact Or.inr ⟨load, h, Or.inl rfl⟩
  | write _ _ => exact Or.inr ⟨load, h, Or.inl rfl⟩
  | remove _ => exact Or.inr ⟨load, h, Or.inl rfl⟩
  | wait _ => exact Or.inr ⟨load, h, Or.inl rfl⟩

end

/-- At some moment after certain events the load at an index was running, and its file was such that
a cold load returns a result. -/
def WasCorrect
    (config : Config) (s : System) (events : List Event) (index : Nat) (path : FilePath)
    (result : LoadResult) : Prop :=
  ∃ earlier later load,
    events = earlier ++ later ∧
    (s.run config earlier).loads[index]? = some { path, load } ∧
    load.result? = none ∧
    cold config path ((s.run config earlier).world.store.read path) = result

namespace WasCorrect

variable {config : Config} {s : System} {events : List Event} {index : Nat} {path : FilePath}
  {result : LoadResult}

theorem concat (h : WasCorrect config s events index path result) (e : Event) :
    WasCorrect config s (events ++ [e]) index path result := by
  obtain ⟨earlier, later, load, hsplit, hrest⟩ := h
  refine ⟨earlier, later ++ [e], load, ?_, hrest⟩
  rw [hsplit, List.append_assoc]

end WasCorrect

/-- What a load is certain of was correct at some moment of the load. -/
theorem wasCorrect_of_promised
    {config : Config} {paths : List FilePath} {store : Store} {clock : Time}
    {events : List Event} {index : Nat} {path : FilePath} {load : Load} {result : LoadResult}
    (hspelled : SpelledAlike paths) (hevents : ∀ p ∈ begun events, p ∈ paths)
    (hload : (System.run config (.initial store clock) events).loads[index]? =
      some { path, load })
    (hpromised : load.promised? config path = some result) :
    WasCorrect config (.initial store clock) events index path result := by
  induction events using List.reverseRecOn generalizing load with
  | nil => cases hload
  | append_singleton events e ih =>
      rw [begun_concat] at hevents
      have hbefore : ∀ p ∈ begun events, p ∈ paths := by
        intro p hp
        exact hevents p (List.mem_append_left _ hp)
      have hsound : Sound config paths (System.run config (.initial store clock) events) :=
        sound_run hspelled store clock events hbefore
      rw [System.run_concat] at hload
      rcases load_of_apply hload with rfl | ⟨before, hat, rfl | rfl⟩
      · cases hpromised
      · exact (ih hbefore hat hpromised).concat e
      · rcases promised_of_steps (hsound.running _ (List.mem_of_getElem? hat))
          (Load.steps_step ..) hpromised with hearlier | ⟨hrunning, hcold⟩
        · exact (ih hbefore hat hearlier).concat e
        · exact ⟨events, [e], before, rfl, hat, hrunning, hcold⟩

theorem cold_eq_file
    {config : Config} {path : FilePath} {store : Store} {e : FileError}
    (h : cold config path (store.read path) = .error (.file e)) :
    e = .missing path ∧ store.contains path = false := by
  cases hfile : store.files.get? path with
  | none =>
      constructor
      · simpa [cold, Store.read, hfile] using h.symm
      · simp [Store.contains, PathMap.contains, hfile]
  | some file =>
      simp only [cold, Store.read, hfile, build] at h
      split at h <;> cases h

/-- What a load returns is what a cold load would have returned at some moment at which the load was
running, whatever other loads and changes of files come in between. -/
theorem load_linearizes
    {config : Config} {store : Store} {clock : Time} {events : List Event} {index : Nat}
    {path : FilePath} {result : LoadResult}
    (hspelled : SpelledAlike (begun events))
    (hdone : (System.run config (.initial store clock) events).loads[index]? =
      some { path, load := .done result }) :
    ∃ earlier later running,
      events = earlier ++ later ∧
      (System.run config (.initial store clock) earlier).loads[index]? =
        some { path, load := running } ∧
      running.result? = none ∧
      (load config path (System.run config (.initial store clock) earlier).world.emptied).1 =
        result ∧
      ∀ e, result = .error (.file e) →
        e = .missing path ∧
        (System.run config (.initial store clock) earlier).world.store.contains path = false := by
  obtain ⟨earlier, later, running, hsplit, hat, hrunning, hcold⟩ :=
    wasCorrect_of_promised hspelled (fun _ hp => hp) hdone rfl
  refine ⟨earlier, later, running, hsplit, hat, hrunning, ?_, ?_⟩
  · rw [load_emptied, hcold]
  · intro e he
    exact cold_eq_file (hcold.trans he)

/-- The first load reads a template that is changed before the second one reads it, but stores its
module last; a third one begins afterwards. -/
def crossing (path : FilePath) : List Event :=
  [.write path "old", .begin path, .begin path] ++
    List.replicate 3 (.advance 0) ++ [.write path "new"] ++ List.replicate 4 (.advance 1) ++
    [.advance 0, .begin path] ++ List.replicate 6 (.advance 2)

theorem exists_done_of_isSome
    (s : System) (index : Nat)
    (h : (s.loads[index]?.bind fun r => r.load.result?).isSome = true) :
    ∃ path result, s.loads[index]? = some { path, load := .done result } := by
  match hr : s.loads[index]? with
  | none => simp [hr] at h
  | some { path, load := .done result } => exact ⟨path, result, rfl⟩
  | some { path, load := .start } => simp [hr, Load.result?] at h
  | some { path, load := .found _ } => simp [hr, Load.result?] at h
  | some { path, load := .stale } => simp [hr, Load.result?] at h
  | some { path, load := .missed } => simp [hr, Load.result?] at h
  | some { path, load := .timed _ } => simp [hr, Load.result?] at h
  | some { path, load := .opened _ _ } => simp [hr, Load.result?] at h

theorem crossing_linearizes :
    ∃ events path result,
      events = crossing { text := "a.hbs" } ∧
      SpelledAlike (begun events) ∧
      (System.run .initial (.initial .empty 0) events).loads[2]? =
        some { path, load := .done result } ∧
      ∃ earlier later running,
        events = earlier ++ later ∧
        (System.run .initial (.initial .empty 0) earlier).loads[2]? =
          some { path, load := running } ∧
        running.result? = none ∧
        (load .initial path (System.run .initial (.initial .empty 0) earlier).world.emptied).1 =
          result ∧
        ∀ e, result = .error (.file e) →
          e = .missing path ∧
          (System.run .initial (.initial .empty 0) earlier).world.store.contains path = false := by
  have hspelled : SpelledAlike (begun (crossing { text := "a.hbs" })) := by
    intro p hp q hq _
    simp [begun, crossing] at hp hq
    rw [hp, hq]
  obtain ⟨path, result, hdone⟩ := exists_done_of_isSome
    (System.run .initial (.initial .empty 0) (crossing { text := "a.hbs" })) 2 (by decide +kernel)
  exact ⟨_, path, result, rfl, hspelled, hdone, load_linearizes hspelled hdone⟩

end Loading
end TemplateModules
