import TemplateModules.Proofs.Script.Names

/-!
# Reading joined texts

What is read in a text that is written piece by piece follows from what is read in the pieces, as
long as no word goes from one piece to the next.  So it is kept for each piece whether it certainly
starts and ends outside of words.

`Runs` says where a text leads from some open brackets, and which free names it has.  `Settles` says
the same of a piece of code that can stand wherever its names are known.
-/

namespace TemplateModules
namespace Script

open Text

/-! ## Ends -/

/-- If it is asked for, a script starts and ends with marks that are no part of a word. -/
structure Ends (ms : List Mark) (front back : Bool) : Prop where
  front : front = true → ∃ m, ms.head? = some m ∧ m.isWordly = false
  back : back = true → ∃ m, ms.getLast? = some m ∧ m.isWordly = false

section

variable {ms ns : List Mark} {front back front' back' : Bool}

/-- Nothing may be asked for. -/
theorem Ends.none (ms : List Mark) : Ends ms false false :=
  ⟨nofun, nofun⟩

theorem Ends.append (hms : Ends ms front back) (hns : Ends ns front' back') :
    Ends (ms ++ ns) front back' where
  front := by
    intro h
    obtain ⟨m, hm, hword⟩ := hms.front h
    exact ⟨m, by rw [List.head?_append, hm, Option.some_or], hword⟩
  back := by
    intro h
    obtain ⟨m, hm, hword⟩ := hns.back h
    exact ⟨m, by rw [List.getLast?_append, hm, Option.some_or], hword⟩

theorem tokens_append_of_ends
    (hms : Ends ms front back) (hns : Ends ns front' back') (h : (back || front') = true) :
    tokens (ms ++ ns) = tokens ms ++ tokens ns := by
  rcases (Bool.or_eq_true ..).mp h with hback | hfront
  · obtain ⟨m, hm, hword⟩ := hms.back hback
    refine tokens_append_of_back fun n hn => ?_
    obtain rfl : m = n := Option.some.inj (hm.symm.trans hn)
    exact hword
  · obtain ⟨m, hm, hword⟩ := hns.front hfront
    refine tokens_append_of_front fun n hn => ?_
    obtain rfl : m = n := Option.some.inj (hm.symm.trans hn)
    exact hword

/-- Whether a script starts and ends as it is asked for. -/
def checkEnds (ms : List Mark) (front back : Bool) : Bool :=
  (!front || ms.head?.any (!·.isWordly)) && (!back || ms.getLast?.any (!·.isWordly))

theorem Ends.of_check (h : checkEnds ms front back = true) : Ends ms front back := by
  simp only [checkEnds, Bool.and_eq_true, Bool.or_eq_true, Bool.not_eq_true'] at h
  have hsome : ∀ {o : Option Mark}, o.any (!·.isWordly) = true →
      ∃ m, o = some m ∧ m.isWordly = false := by
    intro o ho
    cases o with
    | none => cases ho
    | some m => exact ⟨m, rfl, by simpa using ho⟩
  constructor
  · rintro rfl
    exact hsome (h.1.resolve_left nofun)
  · rintro rfl
    exact hsome (h.2.resolve_left nofun)

end

/-! ## Running through a text -/

/-- Reading a text leads from some levels to others and meets given free names. -/
def Runs (text : String) (before after : List Level) (found : List String) (front back : Bool) :
    Prop :=
  ∃ ms, scan text.toList = some ms ∧ Ends ms front back ∧
    ∀ met, Reader.readAll { levels := before, property := false, free := met } (tokens ms) =
      { levels := after, property := false, free := met ++ found }

section

variable {a b text : String} {before between after : List Level} {found others : List String}
  {front back front' back' : Bool}

theorem Runs.append
    (ha : Runs a before between found front back) (hb : Runs b between after others front' back')
    (h : (back || front') = true) :
    Runs (a ++ b) before after (found ++ others) front back' := by
  obtain ⟨ms, hms, hends, hread⟩ := ha
  obtain ⟨ns, hns, hends', hread'⟩ := hb
  refine ⟨ms ++ ns, ?_, hends.append hends', fun met => ?_⟩
  · rw [String.toList_append, scan_append hms hns]
  · rw [tokens_append_of_ends hends hends' h, Reader.readAll_append, hread, hread',
      List.append_assoc]

theorem runs_empty (levels : List Level) : Runs "" levels levels [] false false :=
  ⟨[], rfl, .none [], fun met => by rw [List.append_nil]; rfl⟩

theorem runs_quoted (value : String) (levels : List Level) :
    Runs (quoted value) levels levels [] true true := by
  have hends : Ends [.literal (escaped value.toList)] true true :=
    ⟨fun _ => ⟨_, rfl, rfl⟩, fun _ => ⟨_, rfl, rfl⟩⟩
  refine ⟨_, scan_quoted value, hends, fun met => ?_⟩
  rw [List.append_nil]
  rfl

/-- Less may be said about the ends. -/
theorem Runs.weaken (h : Runs text before after found front back) :
    Runs text before after found false false := by
  obtain ⟨ms, hms, -, hread⟩ := h
  exact ⟨ms, hms, .none ms, hread⟩

/-- Whether reading some characters from some levels leads to others and meets given free names. -/
def checkRuns (cs : List Char) (before after : List Level) (found : List String)
    (front back : Bool) : Bool :=
  match scan cs with
  | none => false
  | some ms =>
      checkEnds ms front back &&
        Reader.readAll { levels := before, property := false, free := [] } (tokens ms) ==
          { levels := after, property := false, free := found }

theorem Runs.of_check
    {cs : List Char} (htext : text = String.ofList cs)
    (h : checkRuns cs before after found front back = true) :
    Runs text before after found front back := by
  unfold checkRuns at h
  split at h
  · cases h
  · next ms hms =>
    obtain ⟨hends, hread⟩ := (Bool.and_eq_true ..).mp h
    refine ⟨ms, by rw [htext, String.toList_ofList, hms], .of_check hends, fun met => ?_⟩
    have hmet := Reader.readAll_free { levels := before, property := false, free := [] } met
      (tokens ms)
    rw [List.append_nil, beq_iff_eq.mp hread] at hmet
    exact hmet

end

/-! ## Texts that settle -/

/-- Wherever some names are known or may be free, reading a text leads from plain brackets to plain
brackets and meets none but such free names. -/
def Settles
    (names free : List String) (text : String) (opened left : Nat) (front back : Bool) : Prop :=
  ∀ base, Calm names free base →
    ∃ found, (∀ name ∈ found, name ∈ free) ∧
      Runs text (List.replicate opened .plain ++ base) (List.replicate left .plain ++ base) found
        front back

section

variable {names free : List String} {a b text : String} {opened between left : Nat}
  {front back front' back' : Bool}

namespace Settles

theorem append
    (ha : Settles names free a opened between front back)
    (hb : Settles names free b between left front' back') (h : (back || front') = true) :
    Settles names free (a ++ b) opened left front back' := by
  intro base hbase
  obtain ⟨found, hfound, hrunsA⟩ := ha base hbase
  obtain ⟨others, hothers, hrunsB⟩ := hb base hbase
  refine ⟨found ++ others, ?_, hrunsA.append hrunsB h⟩
  intro name hname
  exact (List.mem_append.mp hname).elim (hfound name) (hothers name)

/-- Code that closes its own brackets can stand in others. -/
theorem frame (h : Settles names free text 0 0 front back) (depth : Nat) :
    Settles names free text depth depth front back :=
  fun _ hbase => h _ (hbase.replicate depth)

theorem append_whole
    (ha : Settles names free a opened between front back)
    (hb : Settles names free b 0 0 front' back') (h : (back || front') = true) :
    Settles names free (a ++ b) opened between front back' :=
  ha.append (hb.frame between) h

/-- Code that closes its own brackets can stand between texts that end and start outside of
words. -/
theorem around
    (ha : Settles names free a opened between front true)
    (hinside : Settles names free text 0 0 front' back')
    (hb : Settles names free b between left true back) :
    Settles names free (a ++ text ++ b) opened left front back :=
  (ha.append_whole hinside rfl).append hb (Bool.or_true back')

theorem weaken (h : Settles names free text opened left front back) :
    Settles names free text opened left false false := by
  intro base hbase
  obtain ⟨found, hfound, hruns⟩ := h base hbase
  exact ⟨found, hfound, hruns.weaken⟩

end Settles

theorem settles_empty : Settles names free "" 0 0 false false :=
  fun _ _ => ⟨[], by simp, runs_empty _⟩

theorem settles_quoted (value : String) : Settles names free (quoted value) 0 0 true true :=
  fun base _ => ⟨[], by simp, runs_quoted value base⟩

/-- Whether some characters lead from plain brackets to plain brackets and name nothing but some
names. -/
def checkSettles (names : List String) (cs : List Char) (opened left : Nat) (front back : Bool) :
    Bool :=
  match scan cs with
  | none => false
  | some ms =>
      checkEnds ms front back &&
        (tokens ms).foldlM (glance names) (false, opened) == some (false, left)

theorem readAll_of_glance
    {base : List Level} (hbase : Calm names free base) {ts : List Token} {property property' : Bool}
    (h : ts.foldlM (glance names) (property, opened) = some (property', left)) :
    ∃ found, (∀ name ∈ found, name ∈ free) ∧ ∀ met,
      Reader.readAll { levels := List.replicate opened .plain ++ base, property, free := met } ts =
        { levels := List.replicate left .plain ++ base, property := property',
          free := met ++ found } := by
  induction ts generalizing property opened with
  | nil =>
      cases h
      exact ⟨[], by simp, fun met => by rw [List.append_nil]; rfl⟩
  | cons t ts ih =>
      rw [List.foldlM_cons] at h
      obtain ⟨⟨property₁, opened₁⟩, ht, hts⟩ := Option.bind_eq_some_iff.mp h
      obtain ⟨first, hfirst, hread⟩ := read_of_glance hbase ht
      obtain ⟨others, hothers, hall⟩ := ih hts
      refine ⟨first ++ others, ?_, fun met => ?_⟩
      · intro name hname
        exact (List.mem_append.mp hname).elim (hfirst name) (hothers name)
      · rw [Reader.readAll_cons, hread, hall, List.append_assoc]

theorem Settles.of_check
    {cs : List Char} (htext : text = String.ofList cs)
    (h : checkSettles names cs opened left front back = true) :
    Settles names free text opened left front back := by
  intro base hbase
  unfold checkSettles at h
  split at h
  · cases h
  · next ms hms =>
    obtain ⟨hends, hglance⟩ := (Bool.and_eq_true ..).mp h
    obtain ⟨found, hfound, hread⟩ := readAll_of_glance hbase (beq_iff_eq.mp hglance)
    exact ⟨found, hfound, ms, by rw [htext, String.toList_ofList, hms], .of_check hends, hread⟩

end

end Script
end TemplateModules
