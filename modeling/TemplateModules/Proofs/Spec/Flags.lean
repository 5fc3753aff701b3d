import TemplateModules.Proofs.Spec.Uses
import TemplateModules.Proofs.Template.Blocks

/-!
# The flags of generated code

The runtime prepares outer contexts, block parameters and partials for a template only where its
code asks for them by a flag.  The code of every template has exactly the flags that it needs: what
its functions mention is compared with what is recorded of its lines, function by function.
-/

namespace TemplateModules
namespace Spec

open Script Template

/-! ## Lines -/

section

mutual

theorem Value.usesDepths_eq : ∀ v : Value, v.usesDepths = v.accesses.any Access.usesDepths
  | .literal _ => rfl
  | .access access => by simp [Value.usesDepths, Value.accesses]
  | .call call => by
      rw [Value.usesDepths, Value.accesses]
      exact call.usesDepths_eq

theorem HelperCall.usesDepths_eq :
    ∀ call : HelperCall, call.usesDepths = call.accesses.any Access.usesDepths
  | { name, known, params, hash, tag } => by
      rw [HelperCall.usesDepths, HelperCall.accesses, List.any_append, anyUsesDepths_eq params,
        hashUsesDepths_eq hash]

theorem anyUsesDepths_eq :
    ∀ vs : List Value, anyUsesDepths vs = (valuesAccesses vs).any Access.usesDepths
  | [] => rfl
  | v :: vs => by
      rw [anyUsesDepths, valuesAccesses, List.any_append, v.usesDepths_eq, anyUsesDepths_eq vs]

theorem hashUsesDepths_eq :
    ∀ hash : List (String × Value), hashUsesDepths hash = (hashAccesses hash).any Access.usesDepths
  | [] => rfl
  | (_, v) :: hash => by
      rw [hashUsesDepths, hashAccesses, List.any_append, v.usesDepths_eq, hashUsesDepths_eq hash]

end

end

namespace Line

/-- A line is recorded to look at an outer context if one of its accesses does. -/
theorem usesDepths_eq {σ : Type} (line : Line σ) :
    line.usesDepths = line.accesses.any Access.usesDepths := by
  cases line with
  | text s => rfl
  | mustache escaped shown tag =>
      cases shown with
      | value v => exact v.usesDepths_eq
      | lambda access => exact (Value.access access).usesDepths_eq
      | helperOrField name access tag => exact (Value.access access).usesDepths_eq
  | block opening main inverse tag =>
      cases opening with
      | helper call => exact call.usesDepths_eq
      | value access name tag => exact (Value.access access).usesDepths_eq
      | helperOrValue called access name tag => exact (Value.access access).usesDepths_eq
  | inclusion name context hash tag =>
      rw [usesDepths, accesses, List.any_append, hashUsesDepths_eq]
      cases context with
      | none => rfl
      | some v => simp [contextAccesses, v.usesDepths_eq]

theorem usesDepths_iff {σ : Type} (line : Line σ) :
    line.usesDepths = true ↔ ∃ depth, .outer depth ∈ line.mentions := by
  have hroot (access : Access) : access.usesDepths = true ↔ ∃ depth, access.root = .parent depth := by
    unfold Access.usesDepths
    cases access.root <;> simp
  simp only [usesDepths_eq, List.any_eq_true, hroot,
    line.mem_mentions_iff (m := .outer _) rfl, Root.outer_mem_mentions]
  constructor
  · rintro ⟨access, haccess, depth, hdepth⟩
    exact ⟨depth, access, haccess, hdepth⟩
  · rintro ⟨depth, access, haccess, hdepth⟩
    exact ⟨access, haccess, depth, hdepth⟩

theorem declaresParams_iff (line : Line SectionRef) :
    line.declaresParams = true ↔ ∃ ref ∈ line.sections, ref.params ≠ 0 := by
  cases line with
  | text s => simp [declaresParams, sections]
  | mustache escaped shown tag => simp [declaresParams, sections]
  | inclusion name context hash tag => simp [declaresParams, sections]
  | block opening main inverse tag =>
      cases inverse with
      | none => simp [declaresParams, sections]
      | some other => simp [declaresParams, sections]

end Line

/-! ## Functions -/

/-- What a function mentions besides other functions is what its lines mention. -/
theorem Function.occurs_marks_iff
    (strict : Bool) (f : Function) {m : Mention} (hchild : ∀ ref, m ≠ .child ref) :
    m.Occurs (f.marks strict) ↔ ∃ line ∈ f.lines, m ∈ line.mentions := by
  obtain ⟨ms, hms, hoccurs, -⟩ := (f.emits_code strict).exists_scan
  have hmarks : f.marks strict = ms := by rw [Function.marks, hms, Option.getD_some]
  have hnone (line : Line SectionRef) : m ∉ line.sections.map Mention.child := by
    intro hmem
    obtain ⟨ref, -, href⟩ := List.mem_map.mp hmem
    exact hchild ref href.symm
  simp only [hmarks, hoccurs, Function.mentions, List.mem_flatMap, List.mem_append,
    or_iff_left (hnone _)]

namespace Layout

theorem anyLine_iff {layout : Layout} {p : Line SectionRef → Bool} :
    layout.anyLine p = true ↔ ∃ f ∈ layout.functions, ∃ line ∈ f.lines, p line = true := by
  simp [anyLine]

variable (strict : Bool) (layout : Layout)

/-- The code of a template looks at outer contexts just if one of its functions does. -/
theorem usesDepths_iff :
    layout.usesDepths = true ↔
      ∃ f ∈ layout.functions, ∃ depth, (Mention.outer depth).Occurs (f.marks strict) := by
  have houter (f : Function) (depth : Nat) :
      (Mention.outer depth).Occurs (f.marks strict) ↔
        ∃ line ∈ f.lines, .outer depth ∈ line.mentions :=
    f.occurs_marks_iff strict (by simp)
  simp only [usesDepths, anyLine_iff, Line.usesDepths_iff, houter]
  constructor
  · rintro ⟨f, hf, line, hline, depth, hdepth⟩
    exact ⟨f, hf, depth, line, hline, hdepth⟩
  · rintro ⟨f, hf, depth, line, hline, hdepth⟩
    exact ⟨f, hf, line, hline, depth, hdepth⟩

theorem usesPartials_iff :
    layout.usesPartials = true ↔
      ∃ f ∈ layout.functions, Mention.invocation.Occurs (f.marks strict) := by
  have hcall (f : Function) :
      Mention.invocation.Occurs (f.marks strict) ↔ ∃ line ∈ f.lines, .invocation ∈ line.mentions :=
    f.occurs_marks_iff strict (by simp)
  simp only [usesPartials, anyLine_iff, Line.usesPartial_iff, hcall]

/-- A template has block parameters just if one of its sections declares some. -/
theorem Of.usesBlockParams_iff
    {layout : Layout} {program : Program} (h : layout.Of program) :
    layout.usesBlockParams = true ↔ ∃ p ∈ program.sections, p.blockParams ≠ [] := by
  have href (number : Nat) (p : Program) : (refTo number p).params ≠ 0 ↔ p.blockParams ≠ [] := by
    rw [refTo, ne_eq, List.length_eq_zero_iff]
  have hrefs : layout.usesBlockParams = true ↔
      ∃ ref ∈ refsFrom 1 program.sections, ref.params ≠ 0 := by
    simp only [usesBlockParams, anyLine_iff, Line.declaresParams_iff, ← h.mem_refs, Function.refs,
      List.mem_flatMap]
    constructor
    · rintro ⟨f, hf, line, hline, ref, hmem, hparams⟩
      exact ⟨ref, ⟨f, hf, line, hline, hmem⟩, hparams⟩
    · rintro ⟨ref, ⟨f, hf, line, hline, hmem⟩, hparams⟩
      exact ⟨f, hf, line, hline, ref, hmem, hparams⟩
  rw [hrefs]
  constructor
  · rintro ⟨ref, hmem, hparams⟩
    obtain ⟨-, p, hp, href'⟩ := mem_refsFrom.mp hmem
    rw [href', href] at hparams
    exact ⟨p, List.mem_of_getElem? hp, hparams⟩
  · rintro ⟨p, hp, hparams⟩
    obtain ⟨i, hi⟩ := List.mem_iff_getElem?.mp hp
    refine ⟨refTo (i + 1) p, mem_refsFrom.mpr ⟨?_, p, ?_, rfl⟩, (href _ p).mpr hparams⟩
    · simp [refTo]
    · simpa [refTo] using hi

end Layout

/-- A block parameter is only read where a section of the template declares it. -/
theorem exists_params_of_mentions
    {options : Options} {program : Program} {main : Section} {level index : Nat}
    (hmain : (compileSection options [] program).result = .ok main)
    (h : .blockParam level index ∈ main.layout.mentions) :
    ∃ p ∈ program :: program.sections, p.blockParams ≠ [] := by
  obtain ⟨f, hf, hmem⟩ := List.mem_flatMap.mp h
  obtain ⟨line, hline, hmem⟩ := List.mem_flatMap.mp hmem
  have hown : .blockParam level index ∈ line.mentions := by simpa using hmem
  rw [line.mem_mentions_iff rfl] at hown
  obtain ⟨access, haccess, hroot⟩ := hown
  rw [Root.blockParam_mem_mentions] at hroot
  obtain ⟨region, hregion, s, hs⟩ := exists_becomes (forall₂_regions hmain) hf hline
  obtain ⟨path, -, hread⟩ := exists_of_forall₂_of_mem hs.readAs haccess
  cases hread with
  | blockParam hplain hparts hparam =>
      obtain ⟨⟨names, hnames, hname, -⟩, -⟩ := hparam
      have hscope := List.mem_of_getElem? hnames
      have hnonempty : names ≠ [] := List.ne_nil_of_mem (List.mem_of_getElem? hname)
      rcases program.mem_scopes_regions [] region hregion names hscope with hnone | ⟨p, hp, rfl⟩
      · cases hnone
      · exact ⟨p, hp, hnonempty⟩
  | data hdata => cases hroot
  | outer hdata hdepth => cases hroot
  | context hdata hdepth hfree => cases hroot

/-! ## Templates -/

/-- Code has the flags that it needs: each is there or not as what it stands for is needed or
not. -/
structure FlagsFit (program : Program) (ms : List Mark) : Prop where
  exists_flags : ∃ main children depths params partials,
    IsObject ms
      (compilerField :: { key := "main".toList, value := main } ::
        (numberedFields 1 children ++
          (flagField true "useData" ++ flagField depths "useDepths" ++
            flagField params "useBlockParams" ++ flagField partials "usePartial"))) ∧
    (depths = true ↔ ∃ f ∈ main :: children, ∃ depth, (Mention.outer depth).Occurs f) ∧
    (partials = true ↔ ∃ f ∈ main :: children, Mention.invocation.Occurs f) ∧
    (params = true ↔ ∃ p ∈ program :: program.sections, p.blockParams ≠ []) ∧
    ∀ level index, (Mention.blockParam level index).Occurs ms → params = true
  /-- What starts like an access to an outer context or a block parameter is one as a whole. -/
  whole : WellMade ms

/-- The code of every template that compiles has the flags that it needs and no others. -/
theorem code_flags
    {options : Options} {source : String} {artifact : Artifact}
    (h : (precompile options source).result = .ok artifact) :
    ∃ program ms, parse source = .ok program ∧ scan artifact.code.toList = some ms ∧
      FlagsFit program ms := by
  obtain ⟨program, main, hparse, hmain, rfl⟩ := exists_section_of_precompile h
  obtain ⟨ms, hscan, hobject⟩ := main.layout.exists_fields options.strict
  obtain ⟨ms', hscan', hoccurs, hmade⟩ := (main.layout.emits_code options.strict).exists_scan
  obtain rfl : ms' = ms := Option.some.inj (hscan'.symm.trans hscan)
  obtain ⟨tokens, -, hparams, -⟩ := exists_tokens_of_parse hparse
  have hlayout := layout_of_compileSection hmain
  have hsections : main.layout.usesBlockParams = true ↔
      ∃ p ∈ program :: program.sections, p.blockParams ≠ [] := by
    rw [hlayout.usesBlockParams_iff]
    simp [hparams]
  have hfunctions : main.layout.main.marks options.strict ::
      main.layout.children.map (Function.marks options.strict) =
        main.layout.functions.map (Function.marks options.strict) := rfl
  refine ⟨program, ms', hparse, hscan, ⟨_, _, _, _, _, hobject, ?_, ?_, hsections, ?_⟩, hmade⟩
  · rw [hfunctions, main.layout.usesDepths_iff options.strict]
    simp
  · rw [hfunctions, main.layout.usesPartials_iff options.strict]
    simp
  · intro level index hmem
    exact hsections.mpr (exists_params_of_mentions hmain ((hoccurs _).mp hmem))

/-- A loop with a name, an access to the context around it, and a partial. -/
def everyFlag : String :=
  "\x7b\x7b#each rows as |row|\x7d\x7d\x7b\x7b../title\x7d\x7d\x7b\x7brow\x7d\x7d" ++
    "\x7b\x7b> cell\x7d\x7d\x7b\x7b/each\x7d\x7d"

theorem everyFlag_fits :
    ∃ artifact, (precompile builtinOnly everyFlag).result = .ok artifact ∧
      ∃ program ms, parse everyFlag = .ok program ∧ scan artifact.code.toList = some ms ∧
        FlagsFit program ms :=
  (exists_ok_of_isOk (by decide +kernel)).imp fun _ hartifact => ⟨hartifact, code_flags hartifact⟩

end Spec
end TemplateModules
