import TemplateModules.CommandLine.Plan
import TemplateModules.Proofs.Files.Order

/-!
# Inputs in order, and their plan

The inputs of a run come in strictly increasing order of their paths, so that the plan has the
output of each of them.  Of inputs with one path, the first that was collected is left.
-/

namespace TemplateModules
namespace CommandLine

namespace Input

/-- An input comes before another one. -/
def Before (a b : Input) : Prop :=
  a.path.compare b.path = .lt

theorem le_iff {a b : Input} : a.le b = true ↔ (a.path.compare b.path).isLE = true := by
  rw [le, decide_eq_true_iff, Ordering.isLE_iff_ne_gt]

theorem le_trans {a b c : Input} (hab : a.le b = true) (hbc : b.le c = true) :
    a.le c = true := by
  rw [le_iff] at hab hbc ⊢
  exact Std.TransCmp.isLE_trans hab hbc

theorem le_total (a b : Input) : (a.le b || b.le a) = true := by
  rw [Bool.or_eq_true, le_iff, le_iff]
  have hswap : b.path.compare a.path = (a.path.compare b.path).swap := Std.OrientedCmp.eq_swap
  rw [hswap]
  cases a.path.compare b.path <;> simp

theorem before_of_le {a b : Input} (hle : a.le b = true) (hdiff : a.path.same b.path ≠ true) :
    a.Before b := by
  rw [le_iff] at hle
  rw [Before]
  rw [Ne, ← FilePath.compare_eq_iff] at hdiff
  cases hcompare : a.path.compare b.path with
  | lt => rfl
  | eq => exact absurd hcompare hdiff
  | gt => simp [hcompare] at hle

theorem Before.trans {a b c : Input} (hab : a.Before b) (hbc : b.Before c) : a.Before c :=
  Std.TransCmp.lt_trans hab hbc

theorem Before.not_same {a b : Input} (h : a.Before b) : ¬a.path.same b.path = true := by
  rw [← FilePath.compare_eq_iff, h]
  decide

theorem mem_of_mem_dropRepeats {a : Input} {inputs : List Input} (h : a ∈ dropRepeats inputs) :
    a ∈ inputs := by
  induction inputs with
  | nil => exact h
  | cons b rest ih =>
      rw [dropRepeats] at h
      split at h
      · exact List.mem_cons.mpr (.inl (List.mem_singleton.mp h))
      · next c later hlater =>
          rw [hlater] at ih
          split at h
          · rcases List.mem_cons.mp h with rfl | h
            · exact List.mem_cons_self
            · exact List.mem_cons_of_mem _ (ih (List.mem_cons_of_mem _ h))
          · rcases List.mem_cons.mp h with rfl | h
            · exact List.mem_cons_self
            · exact List.mem_cons_of_mem _ (ih h)

/-- Of sorted inputs, those that are kept are strictly increasing. -/
theorem pairwise_dropRepeats
    {inputs : List Input} (h : inputs.Pairwise fun a b => a.le b = true) :
    (dropRepeats inputs).Pairwise Before := by
  induction inputs with
  | nil => exact .nil
  | cons a rest ih =>
      obtain ⟨hfirst, hrest⟩ := List.pairwise_cons.mp h
      have hkept := ih hrest
      have hle {b : Input} (hb : b ∈ dropRepeats rest) : a.le b = true :=
        hfirst b (mem_of_mem_dropRepeats hb)
      rw [dropRepeats]
      split
      · exact List.pairwise_singleton _ _
      · next b later hlater =>
          rw [hlater] at hkept hle
          obtain ⟨hb, hsorted⟩ := List.pairwise_cons.mp hkept
          split
          · next hsame =>
              refine List.pairwise_cons.mpr ⟨fun c hc => ?_, hsorted⟩
              refine before_of_le (hle (List.mem_cons_of_mem _ hc)) fun hac => ?_
              rw [FilePath.same_congr hsame] at hac
              exact (hb c hc).not_same hac
          · next hdiff =>
              have hab := before_of_le (hle List.mem_cons_self) hdiff
              refine List.pairwise_cons.mpr ⟨fun c hc => ?_, hkept⟩
              rcases List.mem_cons.mp hc with rfl | hc
              · exact hab
              · exact hab.trans (hb c hc)

/-- Inputs are arranged in the order of their paths, each of which comes once. -/
theorem pairwise_arrange (inputs : List Input) : (arrange inputs).Pairwise Before := by
  have htrans : ∀ a b c : Input, a.le b = true → b.le c = true → a.le c = true :=
    fun _ _ _ => le_trans
  have hsorted := List.pairwise_mergeSort htrans le_total inputs
  rw [arrange]
  exact pairwise_dropRepeats hsorted

theorem arrange_of_sorted {inputs : List Input} (h : inputs.Pairwise fun a b => a.le b = true) :
    arrange inputs = dropRepeats inputs := by
  rw [arrange, List.mergeSort_of_pairwise h]

/-! ## First inputs -/

/-- The first of some inputs that has a path. -/
def firstWith? (inputs : List Input) (path : FilePath) : Option Input :=
  inputs.find? fun i => i.path.same path

/-- No two inputs have one path. -/
def Distinct (inputs : List Input) : Prop :=
  inputs.Pairwise fun a b => ¬a.path.same b.path = true

section

variable {inputs others : List Input} {path : FilePath} {i : Input}

theorem distinct_of_before (h : inputs.Pairwise Before) : Distinct inputs :=
  h.imp fun hbefore => hbefore.not_same

theorem firstWith?_cons (a : Input) (rest : List Input) (path : FilePath) :
    firstWith? (a :: rest) path =
      if a.path.same path = true then some a else firstWith? rest path := by
  rw [firstWith?, List.find?_cons]
  cases a.path.same path with
  | true => rfl
  | false => rfl

theorem mem_of_firstWith? (h : firstWith? inputs path = some i) :
    i ∈ inputs ∧ i.path.same path = true := by
  have hsame := List.find?_some h
  exact ⟨List.mem_of_find?_eq_some h, hsame⟩

theorem firstWith?_of_mem (h : Distinct inputs) (hi : i ∈ inputs) :
    firstWith? inputs i.path = some i := by
  obtain ⟨before, after, rfl⟩ := List.append_of_mem hi
  have hbefore : ∀ k ∈ before, ¬k.path.same i.path = true :=
    fun k hk => (List.pairwise_append.mp h).2.2 k hk i List.mem_cons_self
  have hfirst := firstWith?_cons i after i.path
  rw [if_pos (FilePath.same_self i.path)] at hfirst
  rw [firstWith?, List.find?_append, List.find?_eq_none.mpr hbefore, Option.none_or]
  exact hfirst

theorem firstWith?_congr {other : FilePath} (h : path.same other = true) (inputs : List Input) :
    firstWith? inputs path = firstWith? inputs other := by
  simp only [firstWith?, FilePath.same, FilePath.same_iff.mp h]

/-- Among inputs with different paths, one is known from its path. -/
theorem Distinct.eq_of_same {k : Input} (h : Distinct inputs) (hi : i ∈ inputs) (hk : k ∈ inputs)
    (hsame : i.path.same k.path = true) : i = k := by
  have hfirst := firstWith?_of_mem h hi
  rw [firstWith?_congr hsame, firstWith?_of_mem h hk] at hfirst
  exact (Option.some.inj hfirst).symm

theorem firstWith?_dropRepeats (inputs : List Input) (path : FilePath) :
    firstWith? (dropRepeats inputs) path = firstWith? inputs path := by
  induction inputs with
  | nil => rfl
  | cons a rest ih =>
      rw [dropRepeats]
      split
      · next hnone => rw [firstWith?_cons, firstWith?_cons, ← ih, hnone]
      · next b later hlater =>
          rw [hlater] at ih
          split
          · next hab =>
              -- The input that is dropped has the path of the one that is kept before it.
              rw [firstWith?_cons, ← FilePath.same_congr hab] at ih
              rw [firstWith?_cons, firstWith?_cons]
              split
              · rfl
              · next hdiff => rw [← ih, if_neg hdiff]
          · rw [firstWith?_cons, ih, ← firstWith?_cons]

/-- Inputs with one path stay in their order when inputs are sorted. -/
theorem filter_mergeSort (inputs : List Input) (path : FilePath) :
    (inputs.mergeSort le).filter (fun i => i.path.same path) =
      inputs.filter fun i => i.path.same path := by
  have htrans : ∀ a b c : Input, a.le b = true → b.le c = true → a.le c = true :=
    fun _ _ _ => le_trans
  have hpairwise : (inputs.filter fun i => i.path.same path).Pairwise
      fun a b => a.le b = true := by
    refine List.pairwise_of_forall_mem_list fun a ha b hb => ?_
    have ha' := FilePath.same_iff.mp (List.mem_filter.mp ha).2
    have hb' := FilePath.same_iff.mp (List.mem_filter.mp hb).2
    rw [le_iff, FilePath.compare_eq_iff.mpr (FilePath.same_iff.mpr (ha'.trans hb'.symm))]
    rfl
  have hsublist := (List.sublist_mergeSort htrans le_total hpairwise
    List.filter_sublist).filter fun i => i.path.same path
  rw [List.filter_filter] at hsublist
  simp only [Bool.and_self] at hsublist
  exact (hsublist.eq_of_length ((List.mergeSort_perm inputs le).filter _).length_eq.symm).symm

/-- Of inputs with one path, the first one is kept. -/
theorem firstWith?_arrange (inputs : List Input) (path : FilePath) :
    firstWith? (arrange inputs) path = firstWith? inputs path := by
  rw [arrange, firstWith?_dropRepeats, firstWith?, ← List.head?_filter, filter_mergeSort,
    List.head?_filter, firstWith?]

/-- What is read off inputs in order is known from the first inputs with all paths. -/
theorem map_eq_of_firstWith? {γ : Type} {g : Input → γ} (place : γ → List FilePath.Component)
    (hplace : ∀ a, place (g a) = a.path.components) (h : inputs.Pairwise Before)
    (h' : others.Pairwise Before)
    (hfirst : ∀ path, (firstWith? inputs path).map g = (firstWith? others path).map g) :
    inputs.map g = others.map g := by
  let r (x y : γ) : Prop := FilePath.compareComponents (place x) (place y) = .lt
  have hirrefl : Std.Irrefl r := by
    constructor
    intro x hx
    have hself : FilePath.compareComponents (place x) (place x) = .eq :=
      FilePath.compareComponents_eq_iff.mpr rfl
    cases hself.symm.trans hx
  have hantisymm : Std.Antisymm r :=
    ⟨fun x y hxy hyx => absurd (Std.TransCmp.lt_trans hxy hyx) (hirrefl.irrefl x)⟩
  have hsorted : ∀ {l : List Input}, l.Pairwise Before → (l.map g).Pairwise r := by
    intro l hl
    rw [List.pairwise_map]
    refine hl.imp fun hab => ?_
    dsimp only [r]
    rw [hplace, hplace]
    exact hab
  have hmem : ∀ {l l' : List Input}, l.Pairwise Before →
      (∀ path, (firstWith? l path).map g = (firstWith? l' path).map g) →
        ∀ x ∈ l.map g, x ∈ l'.map g := by
    intro l l' hl hfirst x hx
    obtain ⟨a, ha, rfl⟩ := List.mem_map.mp hx
    have hb := hfirst a.path
    rw [firstWith?_of_mem (distinct_of_before hl) ha, Option.map_some, eq_comm,
      Option.map_eq_some_iff] at hb
    obtain ⟨b, hb, hba⟩ := hb
    exact List.mem_map.mpr ⟨b, (mem_of_firstWith? hb).1, hba⟩
  exact List.Pairwise.eq_of_mem_iff (hsorted h) (hsorted h') fun x =>
    ⟨hmem h hfirst x, hmem h' (fun path => (hfirst path).symm) x⟩

end

end Input

/-- The inputs of arguments without patterns that stand for inputs in the order of their paths. -/
theorem collectInputs_of_sorted {a : Arguments} {f : Loading.Filter} {s : Surroundings}
    (hpatterns : a.patterns = [])
    (hsorted : (a.inputs.flatMap (s.inputsOf f)).Pairwise fun i k => i.le k = true) :
    collectInputs a f s = .ok (Input.dropRepeats (a.inputs.flatMap (s.inputsOf f))) := by
  rw [collectInputs, hpatterns, ← Input.arrange_of_sorted hsorted]
  simp [readPatterns, Except.map]

/-! ## Plans -/

section

variable {p : Planning} {outDir : Option FilePath} {mayCollide : Bool} {inputs : List Input}
  {plan : OutputPlan}

theorem planFrom_cons {input : Input}
    (h : planFrom p outDir mayCollide (input :: inputs) = .ok plan) :
    planFrom (p.add outDir input) outDir mayCollide inputs = .ok plan := by
  unfold planFrom at h
  dsimp only at h
  split at h
  · cases h
  · exact h

/-- A plan says nothing new of a path that is not one of the inputs. -/
theorem get?_of_planFrom_of_not_same {path : FilePath}
    (h : planFrom p outDir mayCollide inputs = .ok plan)
    (hpath : ∀ i ∈ inputs, ¬i.path.same path = true) :
    plan.get? path = p.plan.get? path := by
  induction inputs generalizing p with
  | nil =>
      obtain rfl := Except.ok.inj h
      rfl
  | cons input inputs ih =>
      rw [ih (planFrom_cons h) fun i hi => hpath i (List.mem_cons_of_mem _ hi), Planning.add,
        PathMap.get?_insert, if_neg (hpath input List.mem_cons_self)]

/-- A plan has the output of each input. -/
theorem get?_of_planFrom {input : Input}
    (h : planFrom p outDir mayCollide inputs = .ok plan)
    (hsorted : inputs.Pairwise Input.Before) (hinput : input ∈ inputs) :
    plan.get? input.path = some (outputPath outDir input) := by
  induction inputs generalizing p with
  | nil => cases hinput
  | cons first inputs ih =>
      obtain ⟨hfirst, hrest⟩ := List.pairwise_cons.mp hsorted
      rcases List.mem_cons.mp hinput with rfl | hinput
      · have hothers : ∀ i ∈ inputs, ¬i.path.same input.path = true := by
          intro i hi hsame
          rw [FilePath.same_iff] at hsame
          exact (hfirst i hi).not_same (FilePath.same_iff.mpr hsame.symm)
        rw [get?_of_planFrom_of_not_same (planFrom_cons h) hothers, Planning.add,
          PathMap.get?_insert, if_pos (FilePath.same_self _)]
      · exact ih (planFrom_cons h) hrest hinput

end

end CommandLine
end TemplateModules
