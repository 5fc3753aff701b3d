import TemplateModules.Proofs.CommandLine.Sources

/-!
# Collisions of outputs

A plan is refused if two inputs have one output, unless nothing is written.  The error names the
first input whose output another one has before it, with this other one.  A plan that is made has an
output for the path of each input, different paths have different ones, and below a directory for
outputs each module has the relative path of its template.
-/

namespace TemplateModules
namespace CommandLine

/-- Two positions in a list of inputs have one output. -/
def Collide (outDir : Option FilePath) (inputs : List Input) (first second : Nat) : Prop :=
  first < second ∧ ∃ i k, inputs[first]? = some i ∧ inputs[second]? = some k ∧
    (outputPath outDir i).same (outputPath outDir k) = true

/-- A collision of the earliest input that has the output of one before it, with that one. -/
def IsFirstCollision (outDir : Option FilePath) (inputs : List Input) (c : Collision) : Prop :=
  ∃ first second i k, Collide outDir inputs first second ∧
    inputs[first]? = some i ∧ inputs[second]? = some k ∧
    (∀ other later, Collide outDir inputs other later → second ≤ later) ∧
    (∀ other, Collide outDir inputs other second → other = first) ∧
    c = { first := i.path, second := k.path, output := outputPath outDir k }

/-- The last input with a path. -/
def lastWith? (inputs : List Input) (path : FilePath) : Option Input :=
  Input.firstWith? inputs.reverse path

/-- Paths with one output are one path. -/
def OutputPlan.Separates (plan : OutputPlan) : Prop :=
  ∀ p q target other, plan.get? p = some target → plan.get? q = some other →
    target.same other = true → p.same q = true

/-! ## Plans in the making -/

/-- The plan in the making after some inputs. -/
def planned (outDir : Option FilePath) (inputs : List Input) : Planning :=
  inputs.foldl (fun p i => p.add outDir i) .empty

section

variable {outDir : Option FilePath} {before inputs rest : List Input} {input : Input}

theorem planned_concat (outDir : Option FilePath) (before : List Input) (input : Input) :
    planned outDir (before ++ [input]) = (planned outDir before).add outDir input :=
  List.foldl_concat ..

/-- An output is claimed by the last input that has it. -/
theorem claimed_planned (outDir : Option FilePath) (inputs : List Input) (path : FilePath) :
    (planned outDir inputs).claimed.get? path =
      (inputs.reverse.find? fun i => (outputPath outDir i).same path).map Input.path := by
  induction inputs using List.reverseRecOn with
  | nil => rfl
  | append_singleton inputs i ih =>
      rw [planned_concat, Planning.add, PathMap.get?_insert, ih, List.reverse_append,
        List.reverse_singleton, List.singleton_append, List.find?_cons]
      cases (outputPath outDir i).same path with
      | true => rfl
      | false => rfl

/-- A path has the output of the last input with this path. -/
theorem get?_planned (outDir : Option FilePath) (inputs : List Input) (path : FilePath) :
    (planned outDir inputs).plan.get? path =
      (lastWith? inputs path).map (outputPath outDir) := by
  unfold lastWith?
  induction inputs using List.reverseRecOn with
  | nil => rfl
  | append_singleton inputs i ih =>
      rw [planned_concat, Planning.add, PathMap.get?_insert, ih, List.reverse_append,
        List.reverse_singleton, List.singleton_append, Input.firstWith?_cons]
      split
      · rfl
      · rfl

/-- The position of an input that claims an output. -/
theorem exists_position_of_claimed {path first : FilePath}
    (h : (planned outDir before).claimed.get? path = some first) :
    ∃ (position : Nat) (i : Input), before[position]? = some i ∧ i.path = first ∧
      (outputPath outDir i).same path = true := by
  rw [claimed_planned, Option.map_eq_some_iff] at h
  obtain ⟨i, hfind, hpath⟩ := h
  obtain ⟨position, hposition⟩ := List.mem_iff_getElem?.mp
    (List.mem_reverse.mp (List.mem_of_find?_eq_some hfind))
  have hsame := List.find?_some hfind
  exact ⟨position, i, hposition, hpath, hsame⟩

theorem not_same_of_claimed_eq_none {path : FilePath} {i : Input}
    (h : (planned outDir before).claimed.get? path = none) (hi : i ∈ before) :
    ¬(outputPath outDir i).same path = true := by
  rw [claimed_planned, Option.map_eq_none_iff, List.find?_eq_none] at h
  exact h i (List.mem_reverse.mpr hi)

/-- An output that is claimed makes the next input the first one to collide. -/
theorem isFirstCollision_of_claimed {first : FilePath}
    (hclaimed : (planned outDir before).claimed.get? (outputPath outDir input) = some first)
    (hfree : ∀ first second, Collide outDir (before ++ input :: rest) first second →
      before.length ≤ second) :
    IsFirstCollision outDir (before ++ input :: rest)
      { first, second := input.path, output := outputPath outDir input } := by
  obtain ⟨position, i, hposition, rfl, hsame⟩ := exists_position_of_claimed hclaimed
  have hlt : position < before.length := (List.getElem?_eq_some_iff.mp hposition).1
  have hfirst : (before ++ input :: rest)[position]? = some i := by
    rw [List.getElem?_append_left hlt, hposition]
  have hsecond : (before ++ input :: rest)[before.length]? = some input := by
    rw [List.getElem?_append_right (Nat.le_refl _), Nat.sub_self, List.getElem?_cons_zero]
  refine ⟨position, before.length, i, input, ⟨hlt, i, input, hfirst, hsecond, hsame⟩, hfirst,
    hsecond, fun other later h => hfree other later h, fun other hother => ?_, rfl⟩
  obtain ⟨hother, k, k', hk, hk', hsame'⟩ := hother
  rw [hsecond, Option.some.injEq] at hk'
  subst hk'
  rw [FilePath.same_iff] at hsame hsame'
  -- Two earlier inputs with the output would collide before.
  rcases Nat.lt_trichotomy other position with hlt' | heq | hlt'
  · have := hfree other position
      ⟨hlt', k, i, hk, hfirst, FilePath.same_iff.mpr (hsame'.trans hsame.symm)⟩
    omega
  · exact heq
  · have := hfree position other
      ⟨hlt', i, k, hfirst, hk, FilePath.same_iff.mpr (hsame.trans hsame'.symm)⟩
    omega

/-- An input whose output is free, or may be shared, is added to the plan. -/
theorem planFrom_next {p : Planning} {mayCollide : Bool}
    (h : mayCollide = true ∨ p.claimed.get? (outputPath outDir input) = none) :
    planFrom p outDir mayCollide (input :: rest) =
      planFrom (p.add outDir input) outDir mayCollide rest := by
  conv_lhs => unfold planFrom
  dsimp only
  split
  · next hsome =>
      rcases h with h | h
      · cases h
      · rw [h] at hsome
        cases hsome
  · rfl

/-- Where nothing is written, every list of inputs has a plan. -/
theorem planFrom_of_mayCollide (before rest : List Input) :
    planFrom (planned outDir before) outDir true rest =
      .ok (planned outDir (before ++ rest)).plan := by
  induction rest generalizing before with
  | nil => rw [planFrom, List.append_nil]
  | cons input rest ih =>
      rw [planFrom_next (.inl rfl), ← planned_concat, ih, ← List.append_cons]

/-- Inputs that follow others which do not collide: they have a plan, or the first collision is
reported. -/
theorem planFrom_cases
    (hfree : ∀ first second, Collide outDir (before ++ rest) first second →
      before.length ≤ second) :
    planFrom (planned outDir before) outDir false rest =
        .ok (planned outDir (before ++ rest)).plan ∨
      ∃ c, planFrom (planned outDir before) outDir false rest = .error c ∧
        IsFirstCollision outDir (before ++ rest) c := by
  induction rest generalizing before with
  | nil => exact Or.inl (by rw [planFrom, List.append_nil])
  | cons input rest ih =>
      cases hclaimed : (planned outDir before).claimed.get? (outputPath outDir input) with
      | some first =>
          refine Or.inr ⟨_, ?_, isFirstCollision_of_claimed hclaimed hfree⟩
          unfold planFrom
          dsimp only
          rw [hclaimed]
      | none =>
          rw [planFrom_next (.inr hclaimed), ← planned_concat, List.append_cons before input rest]
          apply ih
          intro first second h
          rw [← List.append_cons] at h
          have hle := hfree first second h
          rcases Nat.lt_or_eq_of_le hle with hlt | rfl
          · rw [List.length_append, List.length_singleton]
            exact hlt
          · obtain ⟨hlt, i, k, hi, hk, hsame⟩ := h
            rw [List.getElem?_append_right (Nat.le_refl _), Nat.sub_self, List.getElem?_cons_zero,
              Option.some.injEq] at hk
            subst hk
            rw [List.getElem?_append_left hlt] at hi
            exact absurd hsame (not_same_of_claimed_eq_none hclaimed (List.mem_of_getElem? hi))

theorem not_collide_of_planFrom {p : Planning} {plan : OutputPlan}
    (h : planFrom p outDir false inputs = .ok plan) (first second : Nat) :
    ¬Collide outDir inputs first second := by
  rintro ⟨hlt, i, k, hi, hk, hsame⟩
  obtain ⟨hfirst, rfl⟩ := List.getElem?_eq_some_iff.mp hi
  obtain ⟨hsecond, rfl⟩ := List.getElem?_eq_some_iff.mp hk
  exact List.pairwise_iff_getElem.mp (outputs_of_planFrom h).2 first second hfirst hsecond hlt hsame

/-- Inputs have a plan, or modules are written and the first collision is reported. -/
theorem planOutputs_cases (a : Arguments) (inputs : List Input) :
    (planOutputs a inputs = .ok (planned a.outDir inputs).plan ∧
      (a.json = false → ∀ first second, ¬Collide a.outDir inputs first second)) ∨
    a.json = false ∧
      ∃ c, planOutputs a inputs = .error c ∧ IsFirstCollision a.outDir inputs c := by
  rw [planOutputs]
  cases a.json with
  | true => exact Or.inl ⟨planFrom_of_mayCollide [] inputs, nofun⟩
  | false =>
      have hcases := @planFrom_cases a.outDir [] inputs fun _ second _ => Nat.zero_le second
      rcases hcases with hok | herror
      · exact Or.inl ⟨hok, fun _ => not_collide_of_planFrom hok⟩
      · exact Or.inr ⟨rfl, herror⟩

/-! ## Entries of plans -/

theorem exists_lastWith? (h : input ∈ inputs) :
    ∃ i, lastWith? inputs input.path = some i := by
  rw [lastWith?, Input.firstWith?, ← Option.isSome_iff_exists, List.find?_isSome]
  exact ⟨input, List.mem_reverse.mpr h, FilePath.same_self _⟩

theorem position_of_lastWith? {path : FilePath} {i : Input} (h : lastWith? inputs path = some i) :
    (∃ position : Nat, inputs[position]? = some i) ∧ i.path.same path = true := by
  obtain ⟨hmem, hsame⟩ := Input.mem_of_firstWith? h
  exact ⟨List.mem_iff_getElem?.mp (List.mem_reverse.mp hmem), hsame⟩

/-- Inputs that do not collide have outputs that tell their paths apart. -/
theorem separates_planned (h : ∀ first second, ¬Collide outDir inputs first second) :
    OutputPlan.Separates (planned outDir inputs).plan := by
  intro p q target other hp hq hsame
  rw [get?_planned, Option.map_eq_some_iff] at hp hq
  obtain ⟨i, hi, rfl⟩ := hp
  obtain ⟨k, hk, rfl⟩ := hq
  obtain ⟨⟨first, hfirst⟩, hpath⟩ := position_of_lastWith? hi
  obtain ⟨⟨second, hsecond⟩, hpath'⟩ := position_of_lastWith? hk
  rw [FilePath.same_iff] at hsame hpath hpath' ⊢
  rcases Nat.lt_trichotomy first second with hlt | rfl | hlt
  · exact absurd ⟨hlt, i, k, hfirst, hsecond, FilePath.same_iff.mpr hsame⟩ (h first second)
  · obtain rfl := Option.some.inj (hfirst.symm.trans hsecond)
    exact hpath.symm.trans hpath'
  · exact absurd ⟨hlt, k, i, hsecond, hfirst, FilePath.same_iff.mpr hsame.symm⟩ (h second first)

/-- Below a directory for outputs, a module has the place of its template and its own extension. -/
theorem components_outputPath (out : FilePath) {parent : List FilePath.Component} {name : String}
    (hrelative : input.relative.components = parent ++ [.normal name])
    (hparent : ∀ c ∈ parent, ∃ n, c = .normal n) :
    (outputPath (some out) input).components =
      out.components ++ parent ++ [.normal (FilePath.renamed name moduleExtension)] := by
  have hnormal : ∀ c ∈ input.relative.components, ∃ n, c = .normal n := by
    intro c hc
    rw [hrelative] at hc
    rcases List.mem_append.mp hc with hc | hc
    · exact hparent c hc
    · exact ⟨name, List.mem_singleton.mp hc⟩
  have hjoined : (out.join input.relative).components =
      out.components ++ parent ++ [.normal name] := by
    rw [FilePath.components_join out hnormal, hrelative, List.append_assoc]
  have hname : (out.join input.relative).fileName? = some name := by
    apply FilePath.fileName?_of_getLast?
    rw [hjoined, List.getLast?_concat]
  rw [outputPath, FilePath.components_withExtension hname isExtension_moduleExtension, hjoined,
    List.dropLast_concat]

end

/-! ## All inputs -/

/-- Outputs are planned unless two inputs have one output and modules are written; then the first
collision is reported.  A plan has an output for the path of each input, that of the last input with
the path, and where modules are written, different paths have different outputs.  With a directory
for outputs, a module lies below it as its template lies below the directory that was named, and
only the extension is another one. -/
theorem planOutputs_collisions (a : Arguments) (inputs : List Input) :
    ((∃ c, planOutputs a inputs = .error c) ↔
        a.json = false ∧ ∃ first second, Collide a.outDir inputs first second) ∧
      (∀ c, planOutputs a inputs = .error c → IsFirstCollision a.outDir inputs c) ∧
      (∀ plan, planOutputs a inputs = .ok plan →
        (∀ path, plan.get? path = (lastWith? inputs path).map (outputPath a.outDir)) ∧
          (∀ i ∈ inputs, ∃ target, plan.get? i.path = some target) ∧
          (a.json = false → OutputPlan.Separates plan)) ∧
      ∀ out, a.outDir = some out → ∀ i ∈ inputs, ∀ parent name,
        i.relative.components = parent ++ [.normal name] → (∀ c ∈ parent, ∃ n, c = .normal n) →
          (outputPath a.outDir i).components =
            out.components ++ parent ++ [.normal (FilePath.renamed name moduleExtension)] := by
  have hplace : ∀ out, a.outDir = some out → ∀ i ∈ inputs, ∀ parent name,
      i.relative.components = parent ++ [.normal name] → (∀ c ∈ parent, ∃ n, c = .normal n) →
        (outputPath a.outDir i).components =
          out.components ++ parent ++ [.normal (FilePath.renamed name moduleExtension)] := by
    intro out hout i _ parent name hrelative hparent
    rw [hout]
    exact components_outputPath out hrelative hparent
  rcases planOutputs_cases a inputs with ⟨hok, hnone⟩ | ⟨hjson, c, herror, hfirst⟩
  · rw [hok]
    refine ⟨⟨nofun, ?_⟩, nofun, ?_, hplace⟩
    · rintro ⟨hjson, first, second, hcollide⟩
      exact absurd hcollide (hnone hjson first second)
    · intro plan hplan
      obtain rfl := Except.ok.inj hplan
      have hget := get?_planned a.outDir inputs
      refine ⟨hget, fun i hi => ?_, fun hjson => separates_planned (hnone hjson)⟩
      obtain ⟨k, hk⟩ := exists_lastWith? hi
      exact ⟨outputPath a.outDir k, by rw [hget, hk, Option.map_some]⟩
  · have hcollide : ∃ first second, Collide a.outDir inputs first second := by
      obtain ⟨first, second, -, -, hcollide, -⟩ := hfirst
      exact ⟨first, second, hcollide⟩
    rw [herror]
    refine ⟨⟨fun _ => ⟨hjson, hcollide⟩, fun _ => ⟨c, rfl⟩⟩, ?_, nofun, hplace⟩
    intro other hother
    exact Except.error.inj hother ▸ hfirst

/-- Arguments with a directory for outputs. -/
def intoDist : Arguments := { Arguments.none with outDir := some ⟨"dist"⟩ }

/-- Two templates in one directory. -/
def siblings : List Input :=
  [⟨⟨"/t/sub/a.hbs"⟩, ⟨"sub/a.hbs"⟩⟩, ⟨⟨"/t/sub/b.c.hbs"⟩, ⟨"sub/b.c.hbs"⟩⟩]

/-- A template that has the relative path of the first of the two, but for slashes and extension. -/
def namesake : Input := ⟨⟨"/u/sub/a.handlebars"⟩, ⟨"sub//a.handlebars"⟩⟩

/-- Modules that are printed do not get into each other's way. -/
example : (planOutputs { intoDist with json := true } (siblings ++ [namesake])).isOk = true := by
  decide +kernel

/-- Templates of one name with different extensions collide; others are planned at different places
below the directory for outputs. -/
theorem namesake_collides :
    IsFirstCollision (some ⟨"dist"⟩) (siblings ++ [namesake])
        { first := ⟨"/t/sub/a.hbs"⟩, second := ⟨"/u/sub/a.handlebars"⟩,
          output := ⟨"dist/sub//a.js"⟩ } ∧
      (∃ plan, planOutputs intoDist siblings = .ok plan ∧ plan.Separates ∧
        plan.get? ⟨"/t//sub/a.hbs"⟩ = some ⟨"dist/sub/a.js"⟩) ∧
      (outputPath (some ⟨"dist"⟩) ⟨⟨"/t/sub/b.c.hbs"⟩, ⟨"sub/b.c.hbs"⟩⟩).components =
        [.normal "dist", .normal "sub", .normal "b.c.js"] := by
  have herror : (planOutputs intoDist (siblings ++ [namesake])).map PathMap.entries =
      .error ⟨⟨"/t/sub/a.hbs"⟩, ⟨"/u/sub/a.handlebars"⟩, ⟨"dist/sub//a.js"⟩⟩ := by
    decide +kernel
  have hentries : (planOutputs intoDist siblings).map PathMap.entries =
      .ok [(⟨"/t/sub/a.hbs"⟩, ⟨"dist/sub/a.js"⟩), (⟨"/t/sub/b.c.hbs"⟩, ⟨"dist/sub/b.c.js"⟩)] := by
    decide +kernel
  obtain ⟨-, hcollision, -, -⟩ := planOutputs_collisions intoDist (siblings ++ [namesake])
  obtain ⟨-, -, hplan, hplace⟩ := planOutputs_collisions intoDist siblings
  refine ⟨?_, ?_, ?_⟩
  · cases h : planOutputs intoDist (siblings ++ [namesake]) with
    | ok plan =>
        rw [h] at herror
        cases herror
    | error c =>
        rw [h] at herror
        exact Except.error.inj herror ▸ hcollision c h
  · obtain ⟨plan, hok, -⟩ := map_eq_ok.mp hentries
    obtain ⟨hget, -, hseparates⟩ := hplan plan hok
    exact ⟨plan, hok, hseparates rfl, (hget _).trans (by decide +kernel)⟩
  · exact (hplace ⟨"dist"⟩ rfl ⟨⟨"/t/sub/b.c.hbs"⟩, ⟨"sub/b.c.hbs"⟩⟩ (by decide) [.normal "sub"]
      "b.c.hbs" (by decide +kernel) (by simp)).trans (by decide +kernel)

end CommandLine
end TemplateModules
