import TemplateModules.Files.Disk

/-!
# What a write changes

A file that is written lies where its path leads to.  The directories made on the way to it change
no file.
-/

namespace TemplateModules

/-- The location that components lead to from a directory, if they lead anywhere. -/
def Location.follow : Location → List FilePath.Component → Location
  | here, [] => here
  | _, .root :: rest => Location.follow [] rest
  | here, .current :: rest => Location.follow here rest
  | here, .parent :: rest => Location.follow here.dropLast rest
  | here, .normal name :: rest => Location.follow (here ++ [name]) rest

/-- The location that a path leads to from a directory, if it leads anywhere. -/
def FilePath.place (path : FilePath) (here : Location) : Location :=
  here.follow path.components

namespace Listing

theorem enter_eq
    {l : Listing} {here location : Location} {cs : List FilePath.Component}
    (h : l.enter here cs = .ok location) :
    location = here.follow cs := by
  fun_induction Listing.enter l here cs with
  | case1 here => exact (Except.ok.inj h).symm
  | case2 here rest ih => exact ih h
  | case3 here rest ih => exact ih h
  | case4 here rest ih => exact ih h
  | case5 here name hlong => cases h
  | case6 here name hshort => exact (Except.ok.inj h).symm
  | case7 here name rest _ hlong => cases h
  | case8 here name rest _ hshort hkind ih => exact ih h
  | case9 here name rest _ hshort hkind => cases h
  | case10 here name rest _ hshort hkind => cases h

theorem reach_eq
    {l : Listing} {here location : Location} {path : FilePath}
    (h : l.reach here path = .ok location) :
    location = path.place here := by
  unfold reach at h
  split at h
  · cases h
  · exact enter_eq h

end Listing

namespace Disk

variable {d d' : Disk} {here location : Location} {path : FilePath} {contents : FileContents}

theorem lookup_cons (file : Location × FileContents) (files : List (Location × FileContents))
    (location : Location) :
    (file :: files).lookup location =
      if location = file.1 then some file.2 else files.lookup location := by
  obtain ⟨place, held⟩ := file
  by_cases hplace : location = place
  · rw [if_pos hplace, hplace, List.lookup_cons_self]
  · rw [if_neg hplace, List.lookup_cons, beq_eq_false_iff_ne.mpr hplace]

/-- The file of a location that is given contents holds them, and the others hold what they held. -/
theorem lookup_putFile (location other : Location) (contents : FileContents)
    (files : List (Location × FileContents)) :
    (putFile location contents files).lookup other =
      if other = location then some contents else files.lookup other := by
  induction files with
  | nil =>
      rw [putFile, lookup_cons]
  | cons file files ih =>
      rw [putFile]
      by_cases hplace : file.1 = location
      · rw [if_pos hplace, lookup_cons, lookup_cons, hplace]
        by_cases hother : other = location
        · rw [if_pos hother, if_pos hother]
        · rw [if_neg hother, if_neg hother, if_neg hother]
      · rw [if_neg hplace, lookup_cons, ih, lookup_cons]
        by_cases hother : other = file.1
        · rw [if_pos hother, if_neg (hother ▸ hplace), if_pos hother]
        · rw [if_neg hother, if_neg hother]

theorem files_makeDirectory (h : d.makeDirectory here path = .ok d') : d'.files = d.files := by
  unfold makeDirectory at h
  split at h
  · cases h
  · split at h
    · cases h
    · cases h
      rfl

theorem files_ensureDirectory (h : d.ensureDirectory here path = .ok d') :
    d'.files = d.files := by
  unfold ensureDirectory at h
  split at h
  · next hmake =>
      cases h
      exact files_makeDirectory hmake
  · split at h
    · cases h
      rfl
    · cases h

theorem files_ensureDirectories {paths : List FilePath}
    (h : d.ensureDirectories here paths = .ok d') :
    d'.files = d.files := by
  induction paths generalizing d' with
  | nil =>
      cases h
      rfl
  | cons path outer ih =>
      unfold ensureDirectories at h
      split at h
      · next hensure =>
          cases h
          exact files_ensureDirectory hensure
      · split at h
        · split at h
          · cases h
          · next hmade => rw [files_ensureDirectory h, ih hmade]
        · cases h

theorem files_store (h : d.store here path contents = .ok d') :
    d'.files = putFile (path.place here) contents d.files := by
  unfold store at h
  split at h
  · cases h
  · next location hreach =>
      obtain rfl := Listing.reach_eq hreach
      split at h
      · cases h
      · cases h
        rfl
      · cases h
      · cases h

/-- A write changes the file that the path leads to and no other. -/
theorem lookup_write (h : d.write here path (.text text) = .ok d') (location : Location) :
    d'.files.lookup location =
      if location = path.place here then some (.text text) else d.files.lookup location := by
  unfold write at h
  split at h
  · cases h
  · next made hmade =>
      rw [files_store h, files_ensureDirectories hmade]
      exact lookup_putFile _ _ _ _

end Disk
end TemplateModules
