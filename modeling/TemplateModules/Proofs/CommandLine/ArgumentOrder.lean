import TemplateModules.Proofs.CommandLine.Inputs

/-!
# The order of arguments

The paths on the command line may come in another order, and the inputs are the same files.  Their
relative paths need not be the same: where several arguments reach a file, the first of them says
what its relative path is.  So a template below a directory keeps the names on the way to it unless
an argument in front of the directory reaches it too, and the order does not matter exactly if
arguments that reach one file agree about its relative path.
-/

namespace TemplateModules
namespace CommandLine

/-- An input without the spelling of its path. -/
def Input.key (i : Input) : List FilePath.Component × FilePath :=
  (i.path.components, i.relative)

namespace Surroundings

/-- The input with a path that an argument stands for, if it stands for one. -/
def reached? (s : Surroundings) (f : Loading.Filter) (argument path : FilePath) : Option Input :=
  Input.firstWith? (s.inputsOf f argument) path

/-- Arguments that reach one file give it one relative path. -/
def Agree (s : Surroundings) (f : Loading.Filter) (arguments : List FilePath) : Prop :=
  ∀ x ∈ arguments, ∀ y ∈ arguments, ∀ path i k,
    s.reached? f x path = some i → s.reached? f y path = some k → i.relative = k.relative

/-- The inputs of arguments and patterns. -/
def collected (s : Surroundings) (f : Loading.Filter) (patterns : List PathPattern)
    (arguments : List FilePath) : List Input :=
  Input.arrange (arguments.flatMap (s.inputsOf f) ++ patterns.flatMap (s.templatesOf f))

section

variable {s : Surroundings} {f : Loading.Filter} {patterns : List PathPattern}
  {arguments order : List FilePath} {x path : FilePath} {i k : Input}

theorem mem_of_reached? (h : s.reached? f x path = some i) :
    i ∈ s.inputsOf f x ∧ i.path.same path = true :=
  Input.mem_of_firstWith? h

/-- The input with a path is the one of the first argument that reaches the path, or of the first
pattern if no argument does. -/
theorem firstWith?_collected (s : Surroundings) (f : Loading.Filter) (patterns : List PathPattern)
    (arguments : List FilePath) (path : FilePath) :
    Input.firstWith? (s.collected f patterns arguments) path =
      (arguments.findSome? fun x => s.reached? f x path).or
        (Input.firstWith? (patterns.flatMap (s.templatesOf f)) path) := by
  rw [collected, Input.firstWith?_arrange, Input.firstWith?, List.find?_append, List.find?_flatMap]
  rfl

/-- The input of the first argument that reaches its path is left. -/
theorem firstWith?_collected_of_first {before after : List FilePath}
    (h : s.reached? f x path = some i) (hbefore : ∀ y ∈ before, s.reached? f y path = none) :
    Input.firstWith? (s.collected f patterns (before ++ x :: after)) path = some i := by
  have hfirst : (before ++ x :: after).findSome? (fun y => s.reached? f y path) = some i :=
    List.findSome?_eq_some_iff.mpr ⟨before, x, after, rfl, h, hbefore⟩
  rw [firstWith?_collected, hfirst, Option.some_or]

theorem mem_collected_of_head (patterns : List PathPattern) (after : List FilePath)
    (h : s.reached? f x path = some i) : i ∈ s.collected f patterns (x :: after) :=
  (Input.mem_of_firstWith? (@firstWith?_collected_of_first s f patterns x path i [] after h
    nofun)).1

/-! ## Another order -/

/-- The same paths are reached in any order. -/
theorem findSome?_perm (h : order.Perm arguments)
    (hi : arguments.findSome? (fun x => s.reached? f x path) = some i) :
    ∃ k, order.findSome? (fun x => s.reached? f x path) = some k := by
  obtain ⟨x, hx, hreached⟩ := List.exists_of_findSome?_eq_some hi
  rw [← Option.isSome_iff_exists, List.findSome?_isSome_iff]
  refine ⟨x, h.mem_iff.mpr hx, ?_⟩
  rw [hreached, Option.isSome_some]

theorem findSome?_eq_none_of_perm (h : order.Perm arguments)
    (hnone : arguments.findSome? (fun x => s.reached? f x path) = none) :
    order.findSome? (fun x => s.reached? f x path) = none := by
  rw [List.findSome?_eq_none_iff] at hnone ⊢
  intro x hx
  exact hnone x (h.mem_iff.mp hx)

/-- What is read off the first inputs of all paths in one order is read off them in another one, if
it is the same for inputs with one path that arguments stand for. -/
theorem map_collected_of_perm {γ : Type} {g : Input → γ} (place : γ → List FilePath.Component)
    (hplace : ∀ a, place (g a) = a.path.components)
    (hagree : ∀ x ∈ arguments, ∀ y ∈ arguments, ∀ path i k,
      s.reached? f x path = some i → s.reached? f y path = some k → g i = g k)
    (patterns : List PathPattern) (h : order.Perm arguments) :
    (s.collected f patterns order).map g = (s.collected f patterns arguments).map g := by
  apply Input.map_eq_of_firstWith? place hplace (Input.pairwise_arrange _) (Input.pairwise_arrange _)
  intro path
  change (Input.firstWith? (s.collected f patterns order) path).map g =
    (Input.firstWith? (s.collected f patterns arguments) path).map g
  rw [firstWith?_collected, firstWith?_collected]
  cases hi : arguments.findSome? (fun x => s.reached? f x path) with
  | none => rw [findSome?_eq_none_of_perm h hi]
  | some i =>
      obtain ⟨k, hk⟩ := findSome?_perm h hi
      obtain ⟨x, hx, hxi⟩ := List.exists_of_findSome?_eq_some hi
      obtain ⟨y, hy, hyk⟩ := List.exists_of_findSome?_eq_some hk
      rw [hk, Option.some_or, Option.some_or, Option.map_some, Option.map_some,
        hagree x hx y (h.mem_iff.mp hy) path i k hxi hyk]

/-- The inputs have the same paths in any order of the arguments. -/
theorem paths_collected_of_perm (s : Surroundings) (f : Loading.Filter)
    (patterns : List PathPattern) (h : order.Perm arguments) :
    (s.collected f patterns order).map (fun i => i.path.components) =
      (s.collected f patterns arguments).map fun i => i.path.components := by
  apply map_collected_of_perm id (fun _ => rfl) _ patterns h
  intro x _ y _ path i k hi hk
  have hi' := FilePath.same_iff.mp (mem_of_reached? hi).2
  have hk' := FilePath.same_iff.mp (mem_of_reached? hk).2
  exact hi'.trans hk'.symm

/-- Arguments that agree stand for the same inputs in any order. -/
theorem Agree.keys_collected (hagree : s.Agree f arguments) (patterns : List PathPattern)
    (h : order.Perm arguments) :
    (s.collected f patterns order).map Input.key =
      (s.collected f patterns arguments).map Input.key := by
  apply map_collected_of_perm Prod.fst (fun _ => rfl) _ patterns h
  intro x hx y hy path i k hi hk
  have hi' := FilePath.same_iff.mp (mem_of_reached? hi).2
  have hk' := FilePath.same_iff.mp (mem_of_reached? hk).2
  exact Prod.ext (hi'.trans hk'.symm) (hagree x hx y hy path i k hi hk)

/-- Arguments agree if all orders of them stand for the same inputs: each of two arguments that
reach a file may be the first one. -/
theorem agree_of_keys_collected
    (h : ∀ order : List FilePath, order.Perm arguments →
      (s.collected f patterns order).map Input.key =
        (s.collected f patterns arguments).map Input.key) :
    s.Agree f arguments := by
  intro x hx y hy path i k hi hk
  have hfirst : ∀ z ∈ arguments, ∀ j, s.reached? f z path = some j →
      j.key ∈ (s.collected f patterns arguments).map Input.key := by
    intro z hz j hj
    rw [← h (z :: arguments.erase z) (List.perm_cons_erase hz).symm]
    exact List.mem_map_of_mem (mem_collected_of_head patterns _ hj)
  obtain ⟨i', hi', hkey⟩ := List.mem_map.mp (hfirst x hx i hi)
  obtain ⟨k', hk', hkey'⟩ := List.mem_map.mp (hfirst y hy k hk)
  -- Both are in one list, in which each path comes once.
  have hpath : i'.path.same k'.path = true := by
    rw [FilePath.same_iff]
    have hcomponents := FilePath.same_iff.mp (mem_of_reached? hi).2
    have hcomponents' := FilePath.same_iff.mp (mem_of_reached? hk).2
    exact (congrArg Prod.fst hkey).trans
      ((hcomponents.trans hcomponents'.symm).trans (congrArg Prod.fst hkey').symm)
  have hdistinct : Input.Distinct (s.collected f patterns arguments) :=
    Input.distinct_of_before (Input.pairwise_arrange _)
  rw [hdistinct.eq_of_same hi' hk' hpath] at hkey
  exact congrArg Prod.snd (hkey.symm.trans hkey')

/-- A template below a directory is an input of the directory, with the names on the way to it. -/
theorem mem_inputsOf {directory : FilePath} {location : Location} {names : List String}
    (hdirectory : s.listing.directory? s.here directory = some location)
    (hnames : (names, EntryKind.file) ∈ s.listing.openBelow directory location)
    (haccepts : f.accepts (directory.below names) = true) :
    Input.mk ((directory.below names).absolute s.directory) (.ofNames names) ∈
      s.inputsOf f directory := by
  have hinputs : s.inputsOf f directory = s.templatesBelow f directory location := by
    rw [inputsOf, hdirectory]
  rw [hinputs, templatesBelow, List.mem_filterMap]
  exact ⟨(names, .file), hnames, if_pos ⟨rfl, haccepts⟩⟩

theorem reached?_of_mem (hdistinct : Input.Distinct (s.inputsOf f x)) (hi : i ∈ s.inputsOf f x) :
    s.reached? f x i.path = some i := by
  rw [reached?]
  exact Input.firstWith?_of_mem hdistinct hi

end

end Surroundings

section

variable {a : Arguments} {f : Loading.Filter} {s : Surroundings} {patterns : List PathPattern}
  {e : InvalidPattern}

theorem collectInputs_of_ok (h : readPatterns a.patterns = .ok patterns) :
    collectInputs a f s = .ok (s.collected f patterns a.inputs) := by
  rw [collectInputs, h]
  rfl

theorem collectInputs_of_error (h : readPatterns a.patterns = .error e) :
    collectInputs a f s = .error e := by
  rw [collectInputs, h]
  rfl

end

/-- The inputs are the same ones in any order of the arguments. -/
def OrderFree (a : Arguments) (f : Loading.Filter) (s : Surroundings) (inputs : List Input) :
    Prop :=
  ∀ (order : List FilePath) (others : List Input), order.Perm a.inputs →
    collectInputs { a with inputs := order } f s = .ok others →
      others.map Input.key = inputs.map Input.key

theorem Surroundings.Agree.orderFree {a : Arguments} {f : Loading.Filter} {s : Surroundings}
    {patterns : List PathPattern} (hagree : s.Agree f a.inputs)
    (hpatterns : readPatterns a.patterns = .ok patterns) :
    OrderFree a f s (s.collected f patterns a.inputs) := by
  intro order others horder hothers
  have hcollected : collectInputs { a with inputs := order } f s =
      .ok (s.collected f patterns order) := collectInputs_of_ok hpatterns
  obtain rfl := Except.ok.inj (hothers.symm.trans hcollected)
  exact hagree.keys_collected patterns horder

/-- Inputs that are the same have the same places in a directory for outputs. -/
theorem map_outputPath_of_keys {inputs others : List Input}
    (h : others.map Input.key = inputs.map Input.key) (out : FilePath) :
    others.map (outputPath (some out)) = inputs.map (outputPath (some out)) := by
  have houtput : outputPath (some out) =
      (fun key : List FilePath.Component × FilePath =>
        (out.join key.2).withExtension moduleExtension) ∘ Input.key := rfl
  rw [houtput, ← List.map_map, h, List.map_map]

/-- Whether inputs are collected does not depend on the order of arguments, nor do their paths.  The
input with a path is the one of the first argument that reaches the path; so a template below a
directory keeps the names on the way to it if no argument in front of the directory reaches it.
Relative paths do not depend on the order exactly if arguments that reach one file agree about its
relative path, and then the places of modules in a directory for outputs do not depend on it. -/
theorem collectInputs_reordered (a : Arguments) (f : Loading.Filter) (s : Surroundings) :
    (∀ e, collectInputs a f s = .error e →
      ∀ order, collectInputs { a with inputs := order } f s = .error e) ∧
    ∀ inputs, collectInputs a f s = .ok inputs →
      (∀ order : List FilePath, order.Perm a.inputs →
        ∃ others, collectInputs { a with inputs := order } f s = .ok others ∧
          others.map (fun i => i.path.components) = inputs.map fun i => i.path.components) ∧
      (∀ before x after path i, a.inputs = before ++ x :: after →
        s.reached? f x path = some i → (∀ y ∈ before, s.reached? f y path = none) →
          Input.firstWith? inputs path = some i) ∧
      (∀ before directory after location names, a.inputs = before ++ directory :: after →
        s.listing.directory? s.here directory = some location →
        (names, EntryKind.file) ∈ s.listing.openBelow directory location →
        f.accepts (directory.below names) = true → Input.Distinct (s.inputsOf f directory) →
        (∀ y ∈ before,
          s.reached? f y ((directory.below names).absolute s.directory) = none) →
          Input.mk ((directory.below names).absolute s.directory) (.ofNames names) ∈ inputs) ∧
      (OrderFree a f s inputs ↔ s.Agree f a.inputs) ∧
      (s.Agree f a.inputs → ∀ (order : List FilePath) (others : List Input),
        order.Perm a.inputs → collectInputs { a with inputs := order } f s = .ok others →
          ∀ out, others.map (outputPath (some out)) = inputs.map (outputPath (some out))) := by
  cases hpatterns : readPatterns a.patterns with
  | error e =>
      have herror : ∀ order, collectInputs { a with inputs := order } f s = .error e :=
        fun order => collectInputs_of_error hpatterns
      rw [collectInputs_of_error hpatterns]
      refine ⟨fun e' he order => ?_, nofun⟩
      rw [herror order, Except.error.inj he]
  | ok patterns =>
      have hcollected : ∀ order, collectInputs { a with inputs := order } f s =
          .ok (s.collected f patterns order) := fun order => collectInputs_of_ok hpatterns
      rw [collectInputs_of_ok hpatterns]
      refine ⟨nofun, fun inputs hinputs => ?_⟩
      obtain rfl := Except.ok.inj hinputs
      have hfirst : ∀ before x after path i, a.inputs = before ++ x :: after →
          s.reached? f x path = some i → (∀ y ∈ before, s.reached? f y path = none) →
            Input.firstWith? (s.collected f patterns a.inputs) path = some i := by
        intro before x after path i hsplit hi hbefore
        rw [hsplit]
        exact Surroundings.firstWith?_collected_of_first hi hbefore
      refine ⟨?_, hfirst, ?_, ⟨?_, fun hagree => hagree.orderFree hpatterns⟩, ?_⟩
      · intro order horder
        exact ⟨_, hcollected order, s.paths_collected_of_perm f patterns horder⟩
      · intro before directory after location names hsplit hdirectory hnames haccepts hdistinct
          hbefore
        have hmem := Surroundings.mem_inputsOf hdirectory hnames haccepts
        exact (Input.mem_of_firstWith? (hfirst before directory after _ _ hsplit
          (Surroundings.reached?_of_mem hdistinct hmem) hbefore)).1
      · intro hfree
        exact Surroundings.agree_of_keys_collected fun order horder =>
          hfree order _ horder (hcollected order)
      · intro hagree order others horder hothers out
        exact map_outputPath_of_keys (hagree.orderFree hpatterns order others horder hothers) out

/-! ## A template that is named besides its directory -/

/-- A directory with a template in a directory of its own, seen from the root. -/
def nest : Surroundings where
  directory := ⟨"/"⟩
  listing :=
    ⟨[(["t"], .directory), (["t", "sub"], .directory), (["t", "sub", "a.hbs"], .file)]⟩

/-- Arguments that name the directory and the template below it, in one order or the other. -/
def besides (templateFirst : Bool) : Arguments :=
  { Arguments.none with
    inputs := if templateFirst then [⟨"t/sub/a.hbs"⟩, ⟨"t"⟩] else [⟨"t"⟩, ⟨"t/sub/a.hbs"⟩] }

theorem collectInputs_besides (templateFirst : Bool) :
    collectInputs (besides templateFirst) Config.initial.filter nest =
      .ok [⟨⟨"/t/sub/a.hbs"⟩, ⟨if templateFirst then "a.hbs" else "sub/a.hbs"⟩⟩] := by
  cases templateFirst with
  | true =>
      rw [collectInputs_of_sorted rfl (by decide)]
      decide
  | false =>
      rw [collectInputs_of_sorted rfl (by decide)]
      decide

/-- A template that is named in front of a directory above it loses the names on the way to it, and
its module gets another place. -/
theorem order_changes_inputs :
    (¬∀ (a : Arguments) (f : Loading.Filter) (s : Surroundings) (inputs : List Input),
      (∀ x ∈ a.inputs, Input.Distinct (s.inputsOf f x)) → collectInputs a f s = .ok inputs →
        OrderFree a f s inputs) ∧
      outputPath (some ⟨"dist"⟩) ⟨⟨"/t/sub/a.hbs"⟩, ⟨"a.hbs"⟩⟩ = ⟨"dist/a.js"⟩ ∧
      outputPath (some ⟨"dist"⟩) ⟨⟨"/t/sub/a.hbs"⟩, ⟨"sub/a.hbs"⟩⟩ = ⟨"dist/sub/a.js"⟩ := by
  refine ⟨fun hfree => ?_, by decide, by decide⟩
  have hdistinct : ∀ x ∈ (besides true).inputs,
      Input.Distinct (nest.inputsOf Config.initial.filter x) := by
    unfold Input.Distinct
    decide
  have hkeys := hfree (besides true) Config.initial.filter nest _ hdistinct
    (collectInputs_besides true) (besides false).inputs _ (by decide) (collectInputs_besides false)
  exact absurd hkeys (by decide)

/-- The template keeps its names if the directory is named first, and the two arguments do not agree
about its relative path. -/
theorem besides_reordered :
    (∃ inputs, collectInputs (besides false) Config.initial.filter nest = .ok inputs ∧
      ⟨⟨"/t/sub/a.hbs"⟩, ⟨"sub/a.hbs"⟩⟩ ∈ inputs ∧
      ¬OrderFree (besides false) Config.initial.filter nest inputs) ∧
    (∃ others, collectInputs (besides true) Config.initial.filter nest = .ok others ∧
      others.map (fun i => i.path.components) =
        [[.root, .normal "t", .normal "sub", .normal "a.hbs"]]) := by
  obtain ⟨-, hcollects⟩ := collectInputs_reordered (besides false) Config.initial.filter nest
  obtain ⟨hpaths, -, hbelow, hfree, -⟩ := hcollects _ (collectInputs_besides false)
  have hdistinct : Input.Distinct (nest.inputsOf Config.initial.filter ⟨"t"⟩) := by
    unfold Input.Distinct
    decide
  refine ⟨⟨_, collectInputs_besides false, ?_, ?_⟩, ?_⟩
  · exact hbelow [] ⟨"t"⟩ [⟨"t/sub/a.hbs"⟩] ["t"] ["sub", "a.hbs"] rfl (by decide)
      (by decide) (by decide) hdistinct (by simp)
  · rw [hfree]
    intro hagree
    have hrelative := hagree ⟨"t"⟩ (by decide) ⟨"t/sub/a.hbs"⟩ (by decide) ⟨"/t/sub/a.hbs"⟩
      ⟨⟨"/t/sub/a.hbs"⟩, ⟨"sub/a.hbs"⟩⟩ ⟨⟨"/t/sub/a.hbs"⟩, ⟨"a.hbs"⟩⟩ (by decide)
      (by decide)
    exact absurd hrelative (by decide)
  · obtain ⟨others, hothers, hothers'⟩ := hpaths (besides true).inputs (by decide)
    exact ⟨others, hothers, hothers'.trans (by decide)⟩

end CommandLine
end TemplateModules
