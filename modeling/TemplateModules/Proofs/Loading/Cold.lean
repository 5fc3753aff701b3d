import TemplateModules.Proofs.Loading.Steps

/-!
# Cold loads

A load is cold if the cache has no entry at all.  Its result depends on what is read from the file
and on nothing else.
-/

namespace TemplateModules
namespace Loading

/-- What a cold load makes of what it reads. -/
def cold (config : Config) (path : FilePath) : Except FileError String → LoadResult
  | .error e => .error (.file e)
  | .ok source => build config path source

/-- A world whose cache has no entry. -/
def World.emptied (w : World) : World :=
  { w with cache := .empty }

namespace Load

variable {config : Config} {path : FilePath} {w : World}

/-- An opened file is built, whatever the world is. -/
theorem finish_opened (timestamp : Time) (source : String) :
    (finish config path w (.opened timestamp source)).1 = build config path source := by
  by_cases hbuilt : ∃ text, build config path source = .ok (.contents text)
  · obtain ⟨text, hbuild⟩ := hbuilt
    rw [(Steps.keep hbuild).finish, finish_done, hbuild]
  · rw [(Steps.reject (not_exists.mp hbuilt)).finish, finish_done]

theorem finish_timed (timestamp : Time) :
    (finish config path w (.timed timestamp)).1 = cold config path (w.store.read path) := by
  cases hread : w.store.read path with
  | error e => rw [(Steps.unreadable hread).finish, finish_done, cold]
  | ok source => rw [(Steps.read hread).finish, finish_opened, cold]

/-- A load that finds nothing in the cache takes the time of the file and opens it. -/
theorem finish_missed :
    (finish config path w .missed).1 = cold config path (w.store.read path) := by
  rw [Steps.time.finish]
  exact finish_timed _

end Load

theorem exists_contents_of_isSome
    {result : LoadResult} (h : (result.toOption.bind LoadOutput.moduleText?).isSome = true) :
    ∃ text, result = .ok (.contents text) := by
  match result with
  | .error _ => cases h
  | .ok (.errors _) => cases h
  | .ok (.contents text) => exact ⟨text, rfl⟩

/-- A cold load makes its result of what the file holds. -/
theorem load_emptied (config : Config) (path : FilePath) (w : World) :
    (load config path w.emptied).1 = cold config path (w.store.read path) := by
  have habsent : w.emptied.cache.lookup path = none := rfl
  rw [load, (Load.Steps.absent habsent).finish]
  exact Load.finish_missed

end Loading
end TemplateModules
