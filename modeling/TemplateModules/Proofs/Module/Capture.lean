import TemplateModules.Loading.Load
import TemplateModules.Proofs.Module.Header
import TemplateModules.Proofs.Spec.Compiled
import TemplateModules.Proofs.Spec.FreeNames

/-!
# What local names capture

The statements of a module take names from outside: the local name of the runtime, the local names
that are registered, and what the functions of the template take.  A local name that is among the
latter would change the meaning of the template.

This happens for one name only.  The functions of a template ask the global `Object` for fields, and
this is a local name like any other.
-/

namespace TemplateModules
namespace Module

open Script Spec Text

/-- The names that a statement takes from outside, unless it cannot be scanned. -/
def freeNames? (statement : String) : Option (List String) :=
  (scan statement.toList).map freeNames

theorem freeNames?_of_runs
    {statement : String} {after : List Level} {found : List String} {front back : Bool}
    (h : Runs statement [.body []] after found front back) :
    freeNames? statement = some found := by
  obtain ⟨ms, hms, -, hread⟩ := h
  have hstart := hread []
  rw [freeNames?, hms, Option.map_some, freeNames, Reader.start, hstart]
  rfl

/-- The texts that the statements of a module are written with around its template and the entries
of its imports.  With each go the brackets that are open in front of it and behind it, and the names
that it takes from outside. -/
inductive LineText : String → List Level → List Level → List String → Prop where
  | template :
      LineText "export default Handlebars.template(" [.body []] [.plain, .body []] [runtimeName]
  | closeParenthesis : LineText ");" [.plain, .body []] [.body []] []
  | helpers : LineText "Handlebars.registerHelper(\x7b" [.body []] templateLevels [runtimeName]
  | partials : LineText "Handlebars.registerPartial(\x7b" [.body []] templateLevels [runtimeName]
  | colon : LineText ": " templateLevels templateLevels []
  | comma : LineText ", " templateLevels templateLevels []
  | closeBrace : LineText "\x7d);" templateLevels [.body []] []

/-- All but the first words of a line are apart from what stands around them. -/
theorem LineText.runs
    {text : String} {before after : List Level} {found : List String}
    (fixed : LineText text before after found) :
    Runs text before after found found.isEmpty true := by
  cases fixed <;> exact .of_check rfl (by decide +kernel)

/-! ## The line of the template -/

theorem freeNames?_templateLine (strict : Bool) (layout : Layout) :
    ∃ found, (∀ name, name ∈ found ↔ name ∈ outerNames) ∧
      freeNames? (templateLine (layout.code strict)) = some (runtimeName :: found) := by
  obtain ⟨found, hfound, hcode⟩ := layout.runs_code strict
  have hline := (LineText.template.runs.append hcode rfl).append LineText.closeParenthesis.runs rfl
  rw [List.append_nil] at hline
  exact ⟨found, hfound, freeNames?_of_runs hline⟩

/-! ## The lines that register -/

/-- An identifier that is not reserved is a free name where nothing is declared. -/
theorem runs_identifier
    {name : String} (h : isIdentifier name = true) (hreserved : name ∉ reservedWords) :
    Runs name templateLevels templateLevels [name] false false := by
  obtain ⟨⟨c, hc, hstart⟩, hall⟩ := isIdentifier_iff.mp h
  obtain ⟨cs, hcs⟩ : ∃ cs, name.toList = c :: cs := List.head?_eq_some_iff.mp hc
  have hquote : '"' ∉ name.toList := by
    intro hmem
    have hletter := hall _ hmem
    cases hletter
  have htokens : tokens (chars name.toList) = [.word name] := by
    rw [hcs] at hall
    obtain ⟨hfirst, hmore⟩ := List.forall_mem_cons.mp hall
    rw [hcs, tokens_chars_of_word hfirst fun d hd => Or.inl (hmore d hd), ← hcs,
      String.ofList_toList]
  have hdigit : name.toList.head?.any Char.isDigit = false := by
    rw [hcs]
    exact isDigit_eq_false_of_startsIdentifier hstart
  have hkeywords : ∀ word ∈ keywords, word ∈ reservedWords := by
    simp [keywords, reservedWords]
  have hknows : knows templateLevels name = false := by
    simp [knows, templateLevels, Level.plain, Level.body]
  refine ⟨chars name.toList, scan_chars hquote, .none _, fun met => ?_⟩
  rw [htokens]
  exact Reader.readWord_of_unknown rfl hdigit (mt (hkeywords name) hreserved) hknows met

theorem Import.runs_entry
    {i : Import} (h : isIdentifier i.binding = true) (hreserved : i.binding ∉ reservedWords) :
    Runs i.entry templateLevels templateLevels [i.binding] false false := by
  have hname := (runs_quoted i.name templateLevels).append LineText.colon.runs rfl
  exact (hname.append (runs_identifier h hreserved) rfl).weaken

theorem runs_entries
    {imports : List Import}
    (h : ∀ i ∈ imports, isIdentifier i.binding = true ∧ i.binding ∉ reservedWords) :
    Runs (", ".intercalate (imports.map Import.entry)) templateLevels templateLevels
      (imports.map Import.binding) false false := by
  induction imports with
  | nil => exact runs_empty templateLevels
  | cons i imports ih =>
      obtain ⟨⟨hi, hreserved⟩, hmore⟩ := List.forall_mem_cons.mp h
      have hentry := Import.runs_entry hi hreserved
      cases imports with
      | nil => simpa using hentry
      | cons next imports =>
          have hentries := (hentry.append LineText.comma.runs rfl).append (ih hmore) rfl
          rw [List.map_cons, String.intercalate_cons_of_ne_nil (by simp)]
          simpa using hentries

/-- A line that registers imports takes the name of the runtime and their local names. -/
theorem freeNames?_registrationLine
    {function : String} (hfunction : function = "registerHelper" ∨ function = "registerPartial")
    {imports : List Import}
    (h : ∀ i ∈ imports, isIdentifier i.binding = true ∧ i.binding ∉ reservedWords) :
    freeNames? (registrationLine function imports) =
      some (runtimeName :: imports.map Import.binding) := by
  have hopen : Runs (runtimeName ++ "." ++ function ++ "(\x7b") [.body []] templateLevels
      [runtimeName] false true := by
    rcases hfunction with rfl | rfl
    · exact LineText.helpers.runs
    · exact LineText.partials.runs
  have hline := (hopen.append (runs_entries h) rfl).append LineText.closeBrace.runs rfl
  rw [List.append_nil] at hline
  exact freeNames?_of_runs hline

/-! ## Whole modules -/

/-- The statements of a module behind its imports. -/
def statements (artifact : Artifact) (imports : Imports) : List String :=
  [registrationLine "registerHelper" imports.helpers,
    registrationLine "registerPartial" imports.partials, templateLine artifact.code]

/-- A module imports, goes on with its statements, and may end with the comment of a map. -/
theorem exists_lines_eq (style : Style) (artifact : Artifact) (imports : Imports) :
    ∃ trailer, (trailer = [] ∨ ∃ map, trailer = [mapLine map]) ∧
      lines style artifact imports =
        runtimeLine style.runtimeModule :: imports.all.map Import.line ++
          statements artifact imports ++ trailer := by
  obtain ⟨trailer, htrailer, hlines⟩ := exists_trailer style artifact imports
  refine ⟨trailer, htrailer, ?_⟩
  rw [hlines]
  simp [headerLines, statements, Imports.all]

/-- A local name that has no underscore, as `Object` has none, is the name of its import. -/
theorem name_of_binding_eq_object
    {refs : References} {table : ExtensionTable} {i : Import}
    (h : i ∈ (importsOf refs table).all) (hbinding : i.binding = "Object") : i.name = "Object" := by
  obtain ⟨kind, taken, -, hbind⟩ := exists_bind_of_mem_all h
  have hplain : '_' ∉ (bind taken kind.name i.name).toList := by
    rw [← hbind, hbinding]
    decide
  rw [← (bind_eq_of_notMem hplain).1, ← hbind, hbinding]

/-- What the statements of a module take from outside is the runtime, the imports that are
registered and what the functions of the template take.  Of these last names, the only one that can
be a local name is `Object`, and just for an import of this name. -/
theorem captured_iff
    {options : Options} {source : String} {artifact : Artifact}
    (h : (precompile options source).result = .ok artifact) (style : Style) (refs : References)
    (table : ExtensionTable) :
    ∃ names trailer, (∀ name, name ∈ names ↔ name ∈ outerNames) ∧
      (trailer = [] ∨ ∃ map, trailer = [mapLine map]) ∧
      text style artifact refs table = "\n".intercalate
        (runtimeLine style.runtimeModule :: (importsOf refs table).all.map Import.line ++
          statements artifact (importsOf refs table) ++ trailer) ∧
      (statements artifact (importsOf refs table)).mapM freeNames? =
        some [runtimeName :: (importsOf refs table).helpers.map Import.binding,
          runtimeName :: (importsOf refs table).partials.map Import.binding, runtimeName :: names] ∧
      ∀ i ∈ (importsOf refs table).all,
        (i.binding ∈ runtimeName :: names ↔ i.binding = "Object") ∧
          (i.binding = "Object" → i.name = "Object") := by
  obtain ⟨program, main, -, -, rfl⟩ := exists_section_of_precompile h
  obtain ⟨names, hnames, htemplate⟩ := freeNames?_templateLine options.strict main.layout
  obtain ⟨trailer, htrailer, hlines⟩ :=
    exists_lines_eq style (Spec.artifact options source main) (importsOf refs table)
  have hhelpers := freeNames?_registrationLine (Or.inl rfl) fun i hi =>
    (binding_spec (List.mem_append_left (importsOf refs table).partials hi)).imp_right And.left
  have hpartials := freeNames?_registrationLine (Or.inr rfl) fun i hi =>
    (binding_spec (List.mem_append_right (importsOf refs table).helpers hi)).imp_right And.left
  refine ⟨names, trailer, hnames, htrailer, by rw [text, hlines], ?_, ?_⟩
  · have hcode : (Spec.artifact options source main).code = main.layout.code options.strict := rfl
    simp only [statements, hcode, List.mapM_cons, List.mapM_nil, hhelpers, hpartials, htemplate]
    rfl
  · intro i hi
    obtain ⟨-, hreserved, hruntime⟩ := binding_spec hi
    refine ⟨?_, name_of_binding_eq_object hi⟩
    rw [List.mem_cons, hnames, or_iff_right hruntime, outerNames, List.mem_cons,
      List.mem_singleton, or_iff_left_iff_imp]
    intro hundefined
    exact absurd (hundefined ▸ by decide) hreserved

/-- A configuration with helpers that have the names of things which templates use. -/
def borrowing : Config :=
  { Config.initial with helpers := [("container", "./container"), ("Object", "./object")] }

def borrowed : Compilation :=
  precompile (borrowing.optionsFor { text := "names.hbs" })
    "\x7b\x7bcontainer 1\x7d\x7d\x7b\x7bObject\x7d\x7d"

def borrowedImports : Imports := importsOf (.ofLookups borrowed.lookups) borrowing.table

theorem borrowed_spec :
    borrowed.result.isOk = true ∧
      borrowedImports.helpers.map Import.binding = ["container", "Object"] ∧
      borrowedImports.partials.map Import.binding = [] := by
  decide +kernel

theorem exists_borrowed {name : String} (h : name = "container" ∨ name = "Object") :
    ∃ i ∈ borrowedImports.all, i.binding = name := by
  have hmem : name ∈ borrowedImports.helpers.map Import.binding := by
    rw [borrowed_spec.2.1]
    simpa using h
  obtain ⟨i, hi, hbinding⟩ := List.mem_map.mp hmem
  exact ⟨i, List.mem_append_left _ hi, hbinding⟩

theorem borrowed_captured :
    ∃ artifact names, borrowed.result = .ok artifact ∧
      (statements artifact borrowedImports).mapM freeNames? =
        some [[runtimeName, "container", "Object"], [runtimeName], runtimeName :: names] ∧
      "container" ∉ names ∧ "Object" ∈ names := by
  obtain ⟨artifact, hartifact⟩ := exists_ok_of_isOk borrowed_spec.1
  obtain ⟨names, -, hnames, -, -, hfree, hcaptured⟩ :=
    captured_iff hartifact borrowing.style (.ofLookups borrowed.lookups) borrowing.table
  obtain ⟨i, hi, hbinding⟩ := exists_borrowed (Or.inl rfl)
  have hcontainer : "container" ∉ runtimeName :: names := by
    rw [← hbinding, (hcaptured i hi).1, hbinding]
    decide
  refine ⟨artifact, names, hartifact, ?_, mt (List.mem_cons_of_mem _) hcontainer, ?_⟩
  · have hstatements : (statements artifact borrowedImports).mapM freeNames? = _ := hfree
    rw [hstatements]
    exact congrArg₂ (fun a b => some [runtimeName :: a, runtimeName :: b, runtimeName :: names])
      borrowed_spec.2.1 borrowed_spec.2.2
  · rw [hnames]
    decide

/-- The module of a helper `Object` imports a name that the functions of the template take from
outside. -/
theorem object_captures :
    ∃ artifact names, borrowed.result = .ok artifact ∧
      freeNames? (templateLine artifact.code) = some names ∧
      ∃ i ∈ borrowedImports.all, i.binding ∈ names := by
  obtain ⟨artifact, hartifact⟩ := exists_ok_of_isOk borrowed_spec.1
  obtain ⟨program, main, -, -, rfl⟩ := exists_section_of_precompile hartifact
  obtain ⟨names, hnames, htemplate⟩ := freeNames?_templateLine _ main.layout
  obtain ⟨i, hi, hbinding⟩ := exists_borrowed (Or.inr rfl)
  refine ⟨_, _, hartifact, htemplate, i, hi, List.mem_cons_of_mem _ ?_⟩
  rw [hbinding, hnames]
  decide

end Module
end TemplateModules
