import Mathlib.Data.List.Forall2
import Mathlib.Data.List.Induction
import TemplateModules.CommandLine.Changes
import TemplateModules.Proofs.Files.Order

/-!
# Changes are handed out once

Whatever is recorded and asked for, each recorded path is handed out with the next batch or waits
for it.  A batch has the paths that were recorded since the batch before it, in strictly increasing
order.  It is handed out as soon as it is asked for when the quiet time has passed since the last
record that carried a path, and not before.
-/

namespace TemplateModules
namespace CommandLine

/-! ## Collected paths -/

/-- A list has the paths of another one, each in one spelling, in strictly increasing order. -/
structure Collects (paths collected : List FilePath) : Prop where
  sorted : collected.Pairwise fun p q => p.compare q = .lt
  recorded : ∀ p ∈ collected, p ∈ paths
  complete : ∀ p ∈ paths, ∃ q ∈ collected, q.same p = true

section

variable {path : FilePath} {paths collected : List FilePath}

theorem mem_insertPath {q : FilePath} (h : q ∈ insertPath path collected) :
    q = path ∨ q ∈ collected := by
  induction collected with
  | nil => exact .inl (List.mem_singleton.mp h)
  | cons p collected ih =>
      rw [insertPath] at h
      split at h
      · exact List.mem_cons.mp h
      · exact .inr h
      · rcases List.mem_cons.mp h with rfl | h
        · exact .inr List.mem_cons_self
        · exact (ih h).imp_right (List.mem_cons_of_mem p)

theorem mem_insertPath_of_mem {q : FilePath} (h : q ∈ collected) :
    q ∈ insertPath path collected := by
  induction collected with
  | nil => cases h
  | cons p collected ih =>
      rw [insertPath]
      split
      · exact List.mem_cons_of_mem path h
      · exact h
      · rcases List.mem_cons.mp h with rfl | h
        · exact List.mem_cons_self
        · exact List.mem_cons_of_mem p (ih h)

theorem exists_mem_insertPath (path : FilePath) (collected : List FilePath) :
    ∃ q ∈ insertPath path collected, q.same path = true := by
  induction collected with
  | nil => exact ⟨path, List.mem_singleton_self path, FilePath.same_self path⟩
  | cons p collected ih =>
      rw [insertPath]
      split
      · exact ⟨path, List.mem_cons_self, FilePath.same_self path⟩
      · next heq =>
          have hsame := FilePath.same_iff.mp (FilePath.compare_eq_iff.mp heq)
          exact ⟨p, List.mem_cons_self, FilePath.same_iff.mpr hsame.symm⟩
      · obtain ⟨q, hq, hsame⟩ := ih
        exact ⟨q, List.mem_cons_of_mem p hq, hsame⟩

theorem sorted_insertPath (h : collected.Pairwise fun p q => p.compare q = .lt) :
    (insertPath path collected).Pairwise fun p q => p.compare q = .lt := by
  induction collected with
  | nil => exact List.pairwise_singleton _ path
  | cons p collected ih =>
      obtain ⟨hfirst, hrest⟩ := List.pairwise_cons.mp h
      rw [insertPath]
      split
      · next hlt =>
          refine List.pairwise_cons.mpr ⟨fun q hq => ?_, h⟩
          rcases List.mem_cons.mp hq with rfl | hq
          · exact hlt
          · exact Std.TransCmp.lt_trans hlt (hfirst q hq)
      · exact h
      · next hgt =>
          refine List.pairwise_cons.mpr ⟨fun q hq => ?_, ih hrest⟩
          rcases mem_insertPath hq with rfl | hq
          · exact Std.OrientedCmp.lt_of_gt hgt
          · exact hfirst q hq

theorem collects_nil : Collects [] [] :=
  ⟨.nil, nofun, nofun⟩

theorem Collects.insertPath (h : Collects paths collected) (path : FilePath) :
    Collects (paths ++ [path]) (insertPath path collected) where
  sorted := sorted_insertPath h.sorted
  recorded q hq := by
    rcases mem_insertPath hq with rfl | hq
    · exact List.mem_append_right paths List.mem_cons_self
    · exact List.mem_append_left _ (h.recorded q hq)
  complete q hq := by
    rcases List.mem_append.mp hq with hq | hq
    · obtain ⟨r, hr, hsame⟩ := h.complete q hq
      exact ⟨r, mem_insertPath_of_mem hr, hsame⟩
    · rw [List.mem_singleton.mp hq]
      exact exists_mem_insertPath path collected

theorem Collects.foldl (h : Collects paths collected) (more : List FilePath) :
    Collects (paths ++ more)
      (more.foldl (fun pending path => CommandLine.insertPath path pending) collected) := by
  induction more generalizing paths collected with
  | nil =>
      rw [List.append_nil]
      exact h
  | cons path more ih =>
      have hrest := ih (h.insertPath path)
      rw [List.append_assoc] at hrest
      exact hrest

theorem Collects.eq_nil_iff (h : Collects paths collected) : collected = [] ↔ paths = [] := by
  constructor
  · rintro rfl
    apply List.eq_nil_iff_forall_not_mem.mpr
    intro p hp
    obtain ⟨q, hq, -⟩ := h.complete p hp
    cases hq
  · rintro rfl
    apply List.eq_nil_iff_forall_not_mem.mpr
    intro p hp
    cases h.recorded p hp

end

/-! ## What has happened -/

/-- What happens to changes at a time. -/
inductive ChangeEvent where
  | record (paths : List FilePath) (time : Nat)
  /-- The changes are asked for. -/
  | take (time : Nat)
  deriving DecidableEq, Repr

namespace ChangeEvent

def time : ChangeEvent → Nat
  | record _ time => time
  | take time => time

/-- The paths that are recorded. -/
def paths : ChangeEvent → List FilePath
  | record paths _ => paths
  | take _ => []

end ChangeEvent

/-- Changes with what has been recorded and handed out. -/
structure History where
  changes : Changes
  /-- The batches that were handed out, in their order. -/
  batches : List (List FilePath)
  /-- For each batch the paths that were recorded since the batch before it. -/
  groups : List (List FilePath)
  /-- The paths that were recorded since the last batch. -/
  since : List FilePath
  deriving DecidableEq, Repr

namespace History

def initial (quiet : Nat) : History :=
  { changes := .new quiet, batches := [], groups := [], since := [] }

/-- What an event makes of a history. -/
def act (h : History) : ChangeEvent → History
  | .record paths time =>
      { h with changes := h.changes.record paths time, since := h.since ++ paths }
  | .take time =>
      match h.changes.takeReady time with
      | (none, changes) => { h with changes }
      | (some batch, changes) =>
          { changes, batches := h.batches ++ [batch], groups := h.groups ++ [h.since], since := [] }

/-- The history of events. -/
def ofEvents (quiet : Nat) (events : List ChangeEvent) : History :=
  events.foldl act (initial quiet)

theorem ofEvents_concat (quiet : Nat) (events : List ChangeEvent) (e : ChangeEvent) :
    ofEvents quiet (events ++ [e]) = (ofEvents quiet events).act e := by
  simp [ofEvents]

end History

/-! ## The invariant -/

/-- A time is that of the last event that carried a path. -/
def IsLast (events : List ChangeEvent) (time : Nat) : Prop :=
  (∃ e ∈ events, e.paths ≠ [] ∧ e.time = time) ∧ ∀ e ∈ events, e.paths ≠ [] → e.time ≤ time

/-- Nothing of what was recorded is lost, and what waits has the time of the last record. -/
structure Conserved (quiet : Nat) (events : List ChangeEvent) (h : History) : Prop where
  quiet_eq : h.changes.quiet = quiet
  flatten : h.groups.flatten ++ h.since = events.flatMap ChangeEvent.paths
  released : List.Forall₂ (fun group batch => Collects group batch ∧ batch ≠ []) h.groups h.batches
  waiting : Collects h.since h.changes.pending
  last : h.since ≠ [] → ∃ time, h.changes.lastEvent = some time ∧ IsLast events time
  idle : h.since = [] → h.changes.lastEvent = none

theorem IsLast.unique {events : List ChangeEvent} {a b : Nat} (ha : IsLast events a)
    (hb : IsLast events b) : a = b := by
  obtain ⟨⟨e, he, hpaths, rfl⟩, halast⟩ := ha
  obtain ⟨⟨f, hf, hpaths', rfl⟩, hblast⟩ := hb
  exact Nat.le_antisymm (hblast e he hpaths) (halast f hf hpaths')

namespace Changes

/-- Changes are handed out when there are some, and the quiet time has passed since they came. -/
theorem takeReady_cases (c : Changes) (now : Nat) :
    (c.takeReady now = (none, c) ∧
        ∀ last, c.lastEvent = some last → c.pending = [] ∨ now - last < c.quiet) ∨
      ∃ last, c.lastEvent = some last ∧ c.pending ≠ [] ∧ c.quiet ≤ now - last ∧
        c.takeReady now = (some c.pending, { c with pending := [], lastEvent := none }) := by
  unfold takeReady
  cases hlast : c.lastEvent with
  | none => exact .inl ⟨rfl, nofun⟩
  | some last =>
      dsimp only
      split
      · next hearly =>
          refine .inl ⟨rfl, ?_⟩
          intro stored hstored
          rw [← Option.some.inj hstored]
          exact hearly.imp_left List.isEmpty_iff.mp
      · next hready =>
          rw [not_or, List.isEmpty_iff, Nat.not_lt] at hready
          exact .inr ⟨last, rfl, hready.1, hready.2, rfl⟩

end Changes

namespace Conserved

variable {quiet : Nat} {events : List ChangeEvent} {h : History}

theorem initial (quiet : Nat) : Conserved quiet [] (.initial quiet) where
  quiet_eq := rfl
  flatten := rfl
  released := .nil
  waiting := collects_nil
  last := fun hsince => absurd rfl hsince
  idle := fun _ => rfl

/-- An event without paths is no record that counts. -/
theorem isLast_concat {e : ChangeEvent} {time : Nat} (he : e.paths = [])
    (hlast : IsLast events time) : IsLast (events ++ [e]) time := by
  obtain ⟨⟨first, hfirst, hpaths, htime⟩, hall⟩ := hlast
  refine ⟨⟨first, List.mem_append_left _ hfirst, hpaths, htime⟩, fun other hother => ?_⟩
  rcases List.mem_append.mp hother with hother | hother
  · exact hall other hother
  · rw [List.mem_singleton.mp hother, he]
    exact fun hnone => absurd rfl hnone

theorem record (hh : Conserved quiet events h) {paths : List FilePath} {time : Nat}
    (htime : ∀ e ∈ events, e.time ≤ time) :
    Conserved quiet (events ++ [.record paths time]) (h.act (.record paths time)) := by
  have hflatten : h.groups.flatten ++ (h.since ++ paths) =
      (events ++ [ChangeEvent.record paths time]).flatMap ChangeEvent.paths := by
    rw [← List.append_assoc, hh.flatten, List.flatMap_append, List.flatMap_singleton]
    rfl
  cases paths with
  | nil =>
      have hact : h.act (.record [] time) = h := by
        rw [History.act, List.append_nil]
        rfl
      rw [hact]
      refine ⟨hh.quiet_eq, ?_, hh.released, hh.waiting, fun hsince => ?_, hh.idle⟩
      · rw [← hflatten, List.append_nil]
      · obtain ⟨last, hlast, hislast⟩ := hh.last hsince
        exact ⟨last, hlast, isLast_concat rfl hislast⟩
  | cons path paths =>
      refine ⟨hh.quiet_eq, hflatten, hh.released, hh.waiting.foldl (path :: paths), fun _ => ?_,
        fun hsince => absurd hsince (List.append_ne_nil_of_right_ne_nil _ (List.cons_ne_nil _ _))⟩
      refine ⟨time, rfl, ⟨_, List.mem_append_right events List.mem_cons_self,
        List.cons_ne_nil path paths, rfl⟩, fun e he _ => ?_⟩
      rcases List.mem_append.mp he with he | he
      · exact htime e he
      · rw [List.mem_singleton.mp he]
        exact Nat.le_refl time

theorem take (hh : Conserved quiet events h) (time : Nat) :
    Conserved quiet (events ++ [.take time]) (h.act (.take time)) := by
  have hflatten : (events ++ [ChangeEvent.take time]).flatMap ChangeEvent.paths =
      events.flatMap ChangeEvent.paths := by
    rw [List.flatMap_append, List.flatMap_singleton]
    exact List.append_nil _
  obtain ⟨htake, -⟩ | ⟨last, -, hpending, -, htake⟩ := h.changes.takeReady_cases time
  · rw [History.act, htake]
    refine ⟨hh.quiet_eq, ?_, hh.released, hh.waiting, fun hsince => ?_, hh.idle⟩
    · rw [hflatten]
      exact hh.flatten
    · obtain ⟨last, hlast, hislast⟩ := hh.last hsince
      exact ⟨last, hlast, isLast_concat rfl hislast⟩
  · rw [History.act, htake]
    refine ⟨hh.quiet_eq, ?_, ?_, collects_nil, fun hsince => absurd rfl hsince, fun _ => rfl⟩
    · rw [hflatten, ← hh.flatten, List.append_nil, List.flatten_append, List.flatten_singleton]
    · exact List.rel_append hh.released (.cons ⟨hh.waiting, hpending⟩ .nil)

theorem act (hh : Conserved quiet events h) (e : ChangeEvent)
    (htime : ∀ earlier ∈ events, earlier.time ≤ e.time) :
    Conserved quiet (events ++ [e]) (h.act e) := by
  cases e with
  | record paths time => exact hh.record htime
  | take time => exact hh.take time

theorem pending_eq_nil_iff (hh : Conserved quiet events h) :
    h.changes.pending = [] ↔ h.changes.lastEvent = none := by
  rw [hh.waiting.eq_nil_iff]
  constructor
  · exact hh.idle
  · intro hnone
    by_contra hsince
    obtain ⟨time, htime, -⟩ := hh.last hsince
    rw [hnone] at htime
    contradiction

/-- Changes are handed out if there are some, and the quiet time has passed since the last record
that carried a path. -/
theorem takeReady_ne_none_iff (hh : Conserved quiet events h) {now : Nat}
    (hnow : ∀ e ∈ events, e.time ≤ now) :
    (h.changes.takeReady now).1 ≠ none ↔
      h.changes.pending ≠ [] ∧ ∃ last, IsLast events last ∧ last + quiet ≤ now := by
  have hstored : h.changes.pending ≠ [] →
      ∃ last, h.changes.lastEvent = some last ∧ IsLast events last ∧ last ≤ now := by
    intro hpending
    obtain ⟨last, hlast, hislast⟩ := hh.last (mt hh.waiting.eq_nil_iff.mpr hpending)
    obtain ⟨e, he, -, htime⟩ := hislast.1
    exact ⟨last, hlast, hislast, htime ▸ hnow e he⟩
  obtain ⟨htake, hearly⟩ | ⟨last, hlast, hpending, hquiet, htake⟩ :=
    h.changes.takeReady_cases now
  · rw [htake]
    refine ⟨fun hnone => absurd rfl hnone, ?_⟩
    rintro ⟨hpending, last, hislast, hready⟩
    obtain ⟨stored, heq, hisstored, hle⟩ := hstored hpending
    have hquiet := hh.quiet_eq
    have hsame := hislast.unique hisstored
    rcases hearly stored heq with hnone | hlt
    · exact absurd hnone hpending
    · omega
  · rw [htake]
    refine ⟨fun _ => ⟨hpending, ?_⟩, fun _ => Option.some_ne_none _⟩
    obtain ⟨stored, heq, hisstored, hle⟩ := hstored hpending
    obtain rfl : last = stored := Option.some.inj (hlast.symm.trans heq)
    have hquiet' := hh.quiet_eq
    exact ⟨last, hisstored, by omega⟩

/-- What holds of the history of events whose times do not decrease. -/
theorem ofEvents (quiet : Nat) {events : List ChangeEvent}
    (hsorted : events.Pairwise fun a b => a.time ≤ b.time) :
    Conserved quiet events (.ofEvents quiet events) := by
  induction events using List.reverseRecOn with
  | nil => exact initial quiet
  | append_singleton events e ih =>
      obtain ⟨hbefore, -, htime⟩ := List.pairwise_append.mp hsorted
      rw [History.ofEvents_concat]
      apply (ih hbefore).act
      intro earlier hearlier
      exact htime earlier hearlier e List.mem_cons_self

end Conserved

/--
Every recorded path is handed out with the next batch or waits for it, and a batch has nothing else.
Nothing waits if and only if there is no last event.  Changes that are asked for are handed out if
and only if there are some, and the quiet time has passed since the last record that carried a path.
-/
theorem changes_conserved (quiet : Nat) {events : List ChangeEvent}
    (hsorted : events.Pairwise fun a b => a.time ≤ b.time) :
    let h := History.ofEvents quiet events
    h.groups.flatten ++ h.since = events.flatMap ChangeEvent.paths ∧
      List.Forall₂ (fun group batch => Collects group batch ∧ batch ≠ []) h.groups h.batches ∧
      Collects h.since h.changes.pending ∧
      (h.changes.pending = [] ↔ h.changes.lastEvent = none) ∧
      ∀ now, (∀ e ∈ events, e.time ≤ now) →
        ((h.changes.takeReady now).1 ≠ none ↔
          h.changes.pending ≠ [] ∧ ∃ last, IsLast events last ∧ last + quiet ≤ now) := by
  intro h
  have hconserved := Conserved.ofEvents quiet hsorted
  exact ⟨hconserved.flatten, hconserved.released, hconserved.waiting,
    hconserved.pending_eq_nil_iff, fun now => hconserved.takeReady_ne_none_iff⟩

/-- A path that is recorded in two spellings before a batch, and then another path; the records
without paths do not put the batches off. -/
def bustle : List ChangeEvent :=
  [.record [{ text := "t/b.hbs" }, { text := "t/a.hbs" }] 0, .record [{ text := "t//a.hbs" }] 30,
    .record [] 90, .take 129, .take 130, .record [{ text := "t/c.hbs" }] 135, .record [] 200]

theorem bustle_conserved :
    (bustle.Pairwise fun a b => a.time ≤ b.time) ∧
      let h := History.ofEvents 100 bustle
      h.batches = [[{ text := "t/a.hbs" }, { text := "t/b.hbs" }]] ∧
      h.groups.flatten ++ h.since = bustle.flatMap ChangeEvent.paths ∧
      (h.changes.takeReady 234).1 = none ∧ (h.changes.takeReady 235).1 ≠ none := by
  have hsorted : bustle.Pairwise fun a b => a.time ≤ b.time := by decide
  have hlast : IsLast bustle 135 := by
    unfold IsLast
    decide
  obtain ⟨hflatten, -, -, -, htake⟩ := changes_conserved 100 hsorted
  refine ⟨hsorted, by decide +kernel, hflatten, ?_, ?_⟩
  · by_contra hsome
    obtain ⟨-, last, hislast, hready⟩ := (htake 234 (by decide)).mp hsome
    have hsame := hislast.unique hlast
    omega
  · exact (htake 235 (by decide)).mpr ⟨by decide +kernel, 135, hlast, Nat.le_refl 235⟩

end CommandLine
end TemplateModules
