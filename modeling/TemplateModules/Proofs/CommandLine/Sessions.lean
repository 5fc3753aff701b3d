import TemplateModules.Proofs.CommandLine.Effects
import TemplateModules.Proofs.Loading.Parallel

/-!
# Runs and sessions

A run loads its inputs one after another, and has no cache.  A session of a host has one, and a host
may load many paths at a time.  The inputs of a run are different paths, and none of them was loaded
before, so all of this gives the same outcomes.

The files of a session are in memory.  What it says of a file that cannot be read is therefore not
what a disk says; everything else is.
-/

namespace TemplateModules

open Loading (Outcome Pool Session SpelledAlike alone cold)

/-! ## Files in memory -/

/-- What is read of a disk, as a store in memory says it. -/
def Store.readingOf (path : FilePath) (text : Except FileError String) :
    Except FileError String :=
  text.mapError fun _ => .missing path

/-- The files that some paths lead to, in memory. -/
def Disk.inMemory (disk : Disk) (here : Location) : List FilePath → Store
  | [] => .empty
  | path :: paths =>
      match disk.read here path with
      | .ok text => (disk.inMemory here paths).add path text
      | .error _ => disk.inMemory here paths

theorem Store.read_add (s : Store) (path other : FilePath) (text : String) :
    (s.add path text).read other =
      if path.same other = true then .ok text else s.read other := by
  simp only [Store.read, Store.add, PathMap.get?_insert]
  by_cases hsame : path.same other = true
  · simp only [if_pos hsame]
  · simp only [if_neg hsame]

theorem Disk.read_inMemory_of_notMem
    {disk : Disk} {here : Location} {paths : List FilePath} {path : FilePath}
    (h : ∀ p ∈ paths, ¬p.same path = true) :
    (disk.inMemory here paths).read path = .error (.missing path) := by
  induction paths with
  | nil => rfl
  | cons p paths ih =>
      obtain ⟨hp, hpaths⟩ := List.forall_mem_cons.mp h
      rw [inMemory]
      split
      · rw [Store.read_add, if_neg hp, ih hpaths]
      · exact ih hpaths

/-- In memory the files of different paths are those of the disk. -/
theorem Disk.read_inMemory
    {disk : Disk} {here : Location} {paths : List FilePath} {path : FilePath}
    (hdifferent : paths.Pairwise fun p q => ¬p.same q = true) (hpath : path ∈ paths) :
    (disk.inMemory here paths).read path = Store.readingOf path (disk.read here path) := by
  induction paths with
  | nil => cases hpath
  | cons p paths ih =>
      obtain ⟨hp, hpaths⟩ := List.pairwise_cons.mp hdifferent
      rw [inMemory]
      rcases List.mem_cons.mp hpath with rfl | hpath
      · cases hread : disk.read here path with
        | error e =>
            apply read_inMemory_of_notMem
            intro q hq hsame
            exact hp q hq (FilePath.same_symm hsame)
        | ok text =>
            rw [Store.read_add, if_pos path.same_self]
            rfl
      · split
        · rw [Store.read_add, if_neg (hp path hpath), ih hpaths hpath]
        · exact ih hpaths hpath

namespace Loading

/-- An outcome, as it is if the files are in memory. -/
def Outcome.inMemory : Outcome → Outcome
  | failed path (.file _) => failed path (.file (.missing path))
  | o => o

end Loading

namespace CommandLine

variable {config : Config} {path : FilePath} {paths : List FilePath}

theorem inMemory_outcomeOf (config : Config) (path : FilePath) (text : Except FileError String) :
    (outcomeOf config path text).inMemory =
      .ofResult path (cold config path (Store.readingOf path text)) := by
  cases text with
  | error e => rfl
  | ok source =>
      have hcold : cold config path (Store.readingOf path (.ok source)) =
          Loading.build config path source := rfl
      rw [hcold, outcomeOf]
      cases hbuild : Loading.build config path source with
      | ok output => rfl
      | error failure =>
          cases failure with
          | file e => exact absurd hbuild (Loading.build_ne_file config path source e)
          | crashed => rfl

/-- What a run makes of a path is what a load all alone makes of it. -/
theorem inMemory_loadPath {h : Host Id} {store : Store}
    (hread : store.read path = Store.readingOf path (Id.run (h.read path))) :
    (Id.run (loadPath h config path)).inMemory = alone store [config] path := by
  by_cases haccepts : config.filter.accepts path = true
  · have hload : Id.run (loadPath h config path) =
        outcomeOf config path (Id.run (h.read path)) := by
      rw [loadPath, if_pos haccepts]
      rfl
    rw [hload, inMemory_outcomeOf, ← hread,
      Loading.alone_of_some (Loading.firstAccepting?_of_accepts haccepts [])]
  · have hload : Id.run (loadPath h config path) = .skipped path := by
      rw [loadPath, if_neg haccepts]
      rfl
    rw [hload, Loading.alone_of_none (Loading.firstAccepting?_of_not_accepts haccepts [])]
    rfl

theorem map_inMemory_loadPaths {h : Host Id} {store : Store}
    (hread : ∀ path ∈ paths, store.read path = Store.readingOf path (Id.run (h.read path))) :
    (Id.run (loadPaths h config paths)).map Outcome.inMemory =
      paths.map (alone store [config]) := by
  rw [run_loadPaths, List.map_map, List.map_inj_left]
  exact fun path hpath => inMemory_loadPath (hread path hpath)

section

variable {disk : Disk} {directory : FilePath} {a : Arguments} {job : Job}

/-- The inputs of a job are different paths. -/
theorem pairwise_files (h : Id.run (prepare (diskHost disk directory) a) = .ok job) :
    job.files.Pairwise fun p q => ¬p.same q = true := by
  rw [Job.files, List.pairwise_map]
  exact (pairwise_of_prepare h).imp Input.Before.not_same

/-- The outcomes of a run, with the files of its inputs in memory. -/
theorem map_inMemory_outcomes (h : Id.run (prepare (diskHost disk directory) a) = .ok job) :
    (Id.run (loadPaths (diskHost disk directory) job.config job.files)).map Outcome.inMemory =
      job.files.map (alone (disk.inMemory (locationOf directory) job.files) [job.config]) :=
  map_inMemory_loadPaths fun _ hpath => Disk.read_inMemory (pairwise_files h) hpath

/-- A session that has loaded nothing gives the outcomes of a run for the inputs of the run. -/
theorem outcomes_eq_session (h : Id.run (prepare (diskHost disk directory) a) = .ok job)
    (clock : Time) :
    (((Session.new job.config [] clock).mapStore fun _ =>
        disk.inMemory (locationOf directory) job.files).run job.files).1 =
      (Id.run (loadPaths (diskHost disk directory) job.config job.files)).map
        Outcome.inMemory := by
  rw [map_inMemory_outcomes h]
  apply Session.run_of_faithful
  · constructor
    · exact Loading.Cache.faithful_empty _ _ _
    · intro p hp
      cases hp
  · exact Loading.spelledAlike_of_pairwise (pairwise_files h)

/-- Requests for the inputs of a run that share a new cache give the outcomes of the run, in
whatever order their steps come, and they have ended once each had its turns. -/
theorem outcomes_eq_pool (h : Id.run (prepare (diskHost disk directory) a) = .ok job)
    (number : Nat) {later : List Pool.Event} (hcallbacks : Loading.callbacksOf later = [])
    (hpaths : Loading.pathsOf later = [])
    (hturns : ∀ i < job.files.length, 6 ≤ Loading.turns i later) :
    (Pool.initial.run (disk.inMemory (locationOf directory) job.files)
        (.submit [{ config := job.config, cache := number }] job.files :: later)).outcomes? 0
          job.files.length =
      some ((Id.run (loadPaths (diskHost disk directory) job.config job.files)).map
        Outcome.inMemory) := by
  have hserve : Loading.ServeOne (Loading.callbacksOf
      ([] ++ .submit [{ config := job.config, cache := number }] job.files :: later)) := by
    rw [List.nil_append, Loading.callbacksOf, List.flatMap_cons, ← Loading.callbacksOf, hcallbacks]
    exact Loading.serveOne_of_nodup (List.nodup_singleton _)
  have hspelled : SpelledAlike (Loading.pathsOf
      ([] ++ .submit [{ config := job.config, cache := number }] job.files :: later)) := by
    rw [List.nil_append, Loading.pathsOf, List.flatMap_cons, ← Loading.pathsOf, hpaths,
      List.append_nil]
    exact Loading.spelledAlike_of_pairwise (pairwise_files h)
  have hends : ((Pool.initial.run (disk.inMemory (locationOf directory) job.files)
      ([] ++ .submit [{ config := job.config, cache := number }] job.files :: later)).outcomes? 0
        job.files.length).isSome = true := by
    apply Pool.isSome_outcomes?_of_turns
    simpa [Pool.run, Pool.initial] using hturns
  obtain ⟨outcomes, houtcomes⟩ := Option.isSome_iff_exists.mp hends
  have hall := Pool.outcomes?_eq_alone hserve hspelled houtcomes
  rw [hall] at houtcomes
  rw [map_inMemory_outcomes h]
  exact houtcomes

end
end CommandLine
end TemplateModules
