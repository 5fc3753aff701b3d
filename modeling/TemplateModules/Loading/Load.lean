import TemplateModules.Loading.Cache
import TemplateModules.Loading.Filter
import TemplateModules.Loading.Output
import TemplateModules.Module.Text

/-!
# Loading a template

A load is a sequence of steps, each of which touches the surroundings once: it looks into the
cache, asks when the file was changed, takes a stale entry away, reads the clock, reads the file,
and keeps the module.  Loads that run at the same time are interleavings of these steps; `load`
runs them one after another.

The clock is read before the file, so that a change after the reading is never older than the
entry that the load makes.
-/

namespace TemplateModules

namespace Config

/-- Options that a configuration cannot set. -/
def ownOptions : List String := ["srcName", "knownHelpers", "knownHelpersOnly"]

/-- The options for compiling the template of a path: only helpers of the table are known. -/
def optionsFor (c : Config) (path : FilePath) : Spec.Options where
  srcName := some path.text
  knownHelpers := c.helpers.keys
  knownHelpersOnly := true
  extra := c.compileOptions.filter fun (key, _) => !ownOptions.contains key

/-- How the modules of a configuration are written. -/
def style (c : Config) : Module.Style :=
  { runtimeModule := c.runtimeModule, inlineSourceMap := c.inlineSourceMap }

end Config

namespace Loading

/-- How a load can end without an output. -/
inductive LoadFailure where
  | file (e : FileError)
  /-- The scanner of templates gave no answer. -/
  | crashed
  deriving DecidableEq, Repr

/-- How a load ends. -/
abbrev LoadResult := Except LoadFailure LoadOutput

/-- What a source of a path becomes under a configuration. -/
def build (config : Config) (path : FilePath) (source : String) : LoadResult :=
  let compiled := Spec.precompile (config.optionsFor path) source
  match compiled.result with
  | .ok artifact =>
      .ok (.contents
        (Module.text config.style artifact (.ofLookups compiled.lookups) config.table))
  | .error (.refused e) => .ok (.errors [e.message])
  | .error .backwards => .error .crashed

/-- What loads share. -/
structure World where
  store : Store
  cache : Cache
  /-- The last reading of the clock. -/
  clock : Time
  /-- How many times a template was compiled. -/
  compiles : Nat
  deriving Repr, Inhabited

namespace World

/-- The next reading of the clock, which is later than all before. -/
def tick (w : World) : World :=
  { w with clock := w.clock + 1 }

end World

/-- How far a load has come. -/
inductive Load where
  | start
  /-- There is an entry in the cache. -/
  | found (entry : CacheEntry)
  /-- The entry is not fresh. -/
  | stale
  /-- There is no entry to use. -/
  | missed
  /-- The clock has been read. -/
  | timed (timestamp : Time)
  /-- The file has been read. -/
  | opened (timestamp : Time) (source : String)
  | done (result : LoadResult)
  deriving Repr

namespace Load

/-- The most steps that a load still takes. -/
def remaining : Load → Nat
  | start => 6
  | found _ => 5
  | stale => 4
  | missed => 3
  | timed _ => 2
  | opened _ _ => 1
  | done _ => 0

/-- The next step of a load of a path. -/
def step (config : Config) (path : FilePath) (w : World) : Load → Load × World
  | start =>
      match w.cache.lookup path with
      | none => (missed, { w with cache := w.cache.countMiss })
      | some entry => (found entry, w)
  | found entry =>
      if entry.isFresh (w.store.modified? path) then
        (done (.ok (.contents entry.contents)), { w with cache := w.cache.countHit })
      else (stale, w)
  | stale =>
      (missed, { w with cache := (w.cache.erase path).countInvalidation.countMiss })
  | missed =>
      let w := w.tick
      (timed w.clock, w)
  | timed timestamp =>
      match w.store.read path with
      | .error e => (done (.error (.file e)), w)
      | .ok source => (opened timestamp source, w)
  | opened timestamp source =>
      let result := build config path source
      let w := { w with compiles := w.compiles + 1 }
      match result with
      | .ok (.contents text) =>
          (done result, { w with cache := w.cache.insert path text timestamp })
      | _ => (done result, w)
  | done result => (done result, w)

/-- How a load has ended, if it has. -/
def result? : Load → Option LoadResult
  | done result => some result
  | _ => none

/-- Every step of a load that has not ended leaves fewer steps. -/
theorem remaining_step_lt
    (config : Config) (path : FilePath) (w : World) (load : Load)
    (h : load.result? = none) :
    (load.step config path w).1.remaining < load.remaining := by
  cases load with
  | start => simp only [step]; split <;> simp [remaining]
  | found entry => simp only [step]; split <;> simp [remaining]
  | stale => simp [step, remaining]
  | missed => simp [step, remaining]
  | timed t => simp only [step]; split <;> simp [remaining]
  | opened t s => simp only [step]; split <;> simp [remaining]
  | done r => simp [result?] at h

/-- Takes all steps of a load that are left. -/
def finish (config : Config) (path : FilePath) (w : World) (load : Load) : LoadResult × World :=
  match hload : load.result? with
  | some result => (result, w)
  | none =>
      have := remaining_step_lt config path w load hload
      finish config path (load.step config path w).2 (load.step config path w).1
termination_by load.remaining

end Load

/-- Loads the template of a path. -/
def load (config : Config) (path : FilePath) (w : World) : LoadResult × World :=
  Load.start.finish config path w

/-- A fresh module from the cache; an entry that is not fresh is taken away. -/
def getFresh (path : FilePath) (w : World) : Option String × World :=
  match w.cache.lookup path with
  | none => (none, { w with cache := w.cache.countMiss })
  | some entry =>
      if entry.isFresh (w.store.modified? path) then
        (some entry.contents, { w with cache := w.cache.countHit })
      else (none, { w with cache := (w.cache.erase path).countInvalidation.countMiss })

end Loading
end TemplateModules
