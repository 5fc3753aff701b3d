import TemplateModules.Loading.Load
import TemplateModules.Proofs.Files.Map

/-!
# The steps of a load

`Load.Steps` lists what a step of a load can do: what it finds in the world, how far the load has
come afterwards, and what it leaves of the world.  What a step preserves is proved by cases on it.
-/

namespace TemplateModules
namespace Loading
namespace Load

/-- A step that takes a load of a path from a world to another load and another world. -/
inductive Steps (config : Config) (path : FilePath) (w : World) : Load → Load → World → Prop
  | absent (hnone : w.cache.lookup path = none) :
      Steps config path w .start .missed { w with cache := w.cache.countMiss }
  | present {entry : CacheEntry} (hentry : w.cache.lookup path = some entry) :
      Steps config path w .start (.found entry) w
  | hit {entry : CacheEntry} (hfresh : entry.isFresh (w.store.modified? path) = true) :
      Steps config path w (.found entry) (.done (.ok (.contents entry.contents)))
        { w with cache := w.cache.countHit }
  | outdated {entry : CacheEntry} (hstale : entry.isFresh (w.store.modified? path) = false) :
      Steps config path w (.found entry) .stale w
  | invalidate :
      Steps config path w .stale .missed
        { w with cache := (w.cache.erase path).countInvalidation.countMiss }
  | time : Steps config path w .missed (.timed w.tick.clock) w.tick
  | unreadable {timestamp : Time} {e : FileError} (hread : w.store.read path = .error e) :
      Steps config path w (.timed timestamp) (.done (.error (.file e))) w
  | read {timestamp : Time} {source : String} (hread : w.store.read path = .ok source) :
      Steps config path w (.timed timestamp) (.opened timestamp source) w
  | keep {timestamp : Time} {source text : String}
      (hbuild : build config path source = .ok (.contents text)) :
      Steps config path w (.opened timestamp source) (.done (.ok (.contents text)))
        { w with cache := w.cache.insert path text timestamp, compiles := w.compiles + 1 }
  | reject {timestamp : Time} {source : String}
      (hbuild : ∀ text, build config path source ≠ .ok (.contents text)) :
      Steps config path w (.opened timestamp source) (.done (build config path source))
        { w with compiles := w.compiles + 1 }
  | rest {result : LoadResult} : Steps config path w (.done result) (.done result) w

theorem steps_step (config : Config) (path : FilePath) (w : World) (load : Load) :
    Steps config path w load (load.step config path w).1 (load.step config path w).2 := by
  cases load with
  | start =>
      simp only [step]
      split
      · next hnone => exact .absent hnone
      · next entry hentry => exact .present hentry
  | found entry =>
      simp only [step]
      split
      · next hfresh => exact .hit hfresh
      · next hstale => exact .outdated (eq_false_of_ne_true hstale)
  | stale => exact .invalidate
  | missed => exact .time
  | timed timestamp =>
      simp only [step]
      split
      · next e hread => exact .unreadable hread
      · next source hread => exact .read hread
  | opened timestamp source =>
      simp only [step]
      split
      · next text hbuild => rw [hbuild]; exact .keep hbuild
      · next hbuild => exact .reject hbuild
  | done result => exact .rest

theorem finish_done (config : Config) (path : FilePath) (w : World) (result : LoadResult) :
    (done result).finish config path w = (result, w) := by
  rw [finish]
  rfl

namespace Steps

variable {config : Config} {path : FilePath} {w w' : World} {load load' : Load}

/-- A load has one step in a world. -/
theorem step_eq (h : Steps config path w load load' w') :
    load.step config path w = (load', w') := by
  cases h with
  | absent hnone => simp only [step, hnone]
  | present hentry => simp only [step, hentry]
  | hit hfresh => simp only [step, hfresh, if_true]
  | outdated hstale => simp only [step, hstale, Bool.false_eq_true, if_false]
  | invalidate => rfl
  | time => rfl
  | unreadable hread => simp only [step, hread]
  | read hread => simp only [step, hread]
  | keep hbuild => simp only [step, hbuild]
  | reject hbuild => simp only [step]
  | rest => rfl

/-- A load ends as it does after its next step. -/
theorem finish (h : Steps config path w load load' w') :
    load.finish config path w = load'.finish config path w' := by
  cases hresult : load.result? with
  | none =>
      rw [Load.finish]
      split
      · next result hsome => simp [hresult] at hsome
      · change (load.step config path w).1.finish config path (load.step config path w).2 = _
        rw [h.step_eq]
  | some result =>
      cases h <;> cases hresult
      rfl

theorem store_eq (h : Steps config path w load load' w') : w'.store = w.store := by
  cases h <;> rfl

/-- An entry that the cache has after a step was there before, or the step has made it of the source
that it built. -/
theorem lookup
    (h : Steps config path w load load' w') {q : FilePath} {entry : CacheEntry}
    (hentry : w'.cache.lookup q = some entry) :
    w.cache.lookup q = some entry ∨
      path.same q = true ∧ ∃ source, load = .opened entry.timestamp source ∧
        build config path source = .ok (.contents entry.contents) := by
  cases h with
  | invalidate =>
      change (w.cache.entries.erase path).get? q = some entry at hentry
      rw [PathMap.get?_erase] at hentry
      by_cases hsame : path.same q = true
      · rw [if_pos hsame] at hentry
        contradiction
      · rw [if_neg hsame] at hentry
        exact .inl hentry
  | keep hbuild =>
      change (w.cache.entries.insert path _).get? q = some entry at hentry
      rw [PathMap.get?_insert] at hentry
      by_cases hsame : path.same q = true
      · rw [if_pos hsame, Option.some.injEq] at hentry
        subst hentry
        exact .inr ⟨hsame, _, rfl, hbuild⟩
      · rw [if_neg hsame] at hentry
        exact .inl hentry
  | _ => exact .inl hentry

end Steps
end Load
end Loading
end TemplateModules
