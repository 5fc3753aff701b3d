import Mathlib.Tactic.Common
import TemplateModules.Proofs.Module.Binding
import TemplateModules.Proofs.Source.Place
import TemplateModules.Proofs.Text.Base64
import TemplateModules.Proofs.Text.Quoted

/-!
# The lines around a template

No name and no path that a module imports can end a line, so the template of a module starts as many
lines down as there are lines in front of it.  Behind it there is at most one line more, the comment
of a source map.
-/

namespace TemplateModules
namespace Module

open Spec Text

/-! ## Local names -/

theorem oneLine_of_isIdentifier {name : String} (h : isIdentifier name = true) : OneLine name := by
  intro hmem
  exact absurd ((isIdentifier_iff.mp h).2 '\n' hmem) (by decide)

/-- Local names do not end their lines, whatever they are names for. -/
theorem oneLine_binding
    {kind : ExtensionKind} {table : Fields String} {used names : List String} {i : Import}
    (h : i ∈ (matchNames kind table used names).1) :
    OneLine i.binding := by
  obtain ⟨-, taken, -, hbinding⟩ := spec_of_mem_matchNames h
  rw [hbinding]
  exact oneLine_of_isIdentifier (isIdentifier_bind taken kind i.name)

/-! ## Lines -/

theorem oneLine_line {i : Import} (h : OneLine i.binding) : OneLine i.line := by
  have himport : OneLine "import " := by decide
  have hfrom : OneLine " from " := by decide
  have hend : OneLine ";" := by decide
  exact (((himport.append h).append hfrom).append (oneLine_quoted i.specifier)).append hend

theorem oneLine_entry {i : Import} (h : OneLine i.binding) : OneLine i.entry := by
  have hcolon : OneLine ": " := by decide
  exact ((oneLine_quoted i.name).append hcolon).append h

theorem oneLine_registrationLine
    {function : String} {imports : List Import} (hfunction : OneLine function)
    (himports : ∀ i ∈ imports, OneLine i.binding) :
    OneLine (registrationLine function imports) := by
  have hruntime : OneLine runtimeName := by decide
  have hpoint : OneLine "." := by decide
  have hopen : OneLine "(\x7b" := by decide
  have hcomma : OneLine ", " := by decide
  have hclose : OneLine "\x7d);" := by decide
  have hentries : OneLine (", ".intercalate (imports.map Import.entry)) := by
    apply hcomma.intercalate
    intro entry hentry
    obtain ⟨i, hi, rfl⟩ := List.mem_map.mp hentry
    exact oneLine_entry (himports i hi)
  exact ((((hruntime.append hpoint).append hfunction).append hopen).append hentries).append hclose

theorem oneLine_runtimeLine (runtimeModule : String) : OneLine (runtimeLine runtimeModule) := by
  have himport : OneLine ("import * as " ++ runtimeName ++ " from ") := by decide
  have hend : OneLine ";" := by decide
  exact (himport.append (oneLine_quoted runtimeModule)).append hend

/-- No line in front of a template has newlines inside. -/
theorem oneLine_of_mem_headerLines
    {runtimeModule : String} {refs : References} {table : ExtensionTable} {line : String}
    (h : line ∈ headerLines runtimeModule (importsOf refs table)) :
    OneLine line := by
  have hhelpers : ∀ i ∈ (importsOf refs table).helpers, OneLine i.binding :=
    fun i hi => oneLine_binding hi
  have hpartials : ∀ i ∈ (importsOf refs table).partials, OneLine i.binding :=
    fun i hi => oneLine_binding hi
  simp only [headerLines, List.mem_append, List.mem_map, List.mem_cons, List.not_mem_nil,
    or_false] at h
  rcases h with (rfl | ⟨i, hi | hi, rfl⟩) | rfl | rfl
  · exact oneLine_runtimeLine runtimeModule
  · exact oneLine_line (hhelpers i hi)
  · exact oneLine_line (hpartials i hi)
  · exact oneLine_registrationLine (by decide) hhelpers
  · exact oneLine_registrationLine (by decide) hpartials

/-- What a source map in a line stands behind. -/
def mapMark : String :=
  "//# sourceMappingURL=data:application/json;base64,"

theorem toList_mapLine (map : String) :
    (mapLine map).toList = mapMark.toList ++ (base64Text map).toList :=
  String.toList_append

theorem oneLine_mapLine (map : String) : OneLine (mapLine map) := by
  have hmark : OneLine mapMark := by decide
  have hencoded : OneLine (base64Text map) := by
    rw [OneLine, base64Text, String.toList_ofList]
    exact notMem_base64 _ (by decide) (by decide)
  exact hmark.append hencoded

/-- Behind the line of the template there may be one line more, which is a comment. -/
theorem exists_trailer (style : Style) (artifact : Artifact) (imports : Imports) :
    ∃ trailer, (trailer = [] ∨ ∃ map, trailer = [mapLine map]) ∧
      lines style artifact imports =
        headerLines style.runtimeModule imports ++ [templateLine artifact.code] ++ trailer := by
  obtain ⟨map, hmap⟩ : ∃ map : Option String, lines style artifact imports =
      headerLines style.runtimeModule imports ++ [templateLine artifact.code] ++
        (map.map mapLine).toList :=
    ⟨_, rfl⟩
  refine ⟨(map.map mapLine).toList, ?_, hmap⟩
  cases map with
  | none => exact Or.inl rfl
  | some map => exact Or.inr ⟨map, rfl⟩

/-- Lines that are written out end as many lines down as they are. -/
theorem after_linesText {lines : List String} (h : ∀ line ∈ lines, OneLine line) :
    Place.after (linesText lines).toList = { line := lines.length, column := 0 } := by
  have hpast : ∀ p : Place, p.column = 0 →
      p.past (linesText lines).toList = { line := p.line + lines.length, column := 0 } := by
    induction lines with
    | nil =>
        rintro ⟨line, column⟩ rfl
        rfl
    | cons line lines ih =>
        intro p hp
        have hline := h line List.mem_cons_self
        have hjoin : (linesText (line :: lines)).toList =
            line.toList ++ ['\n'] ++ (linesText lines).toList := by
          simp [linesText_cons]
        rw [hjoin, Place.past_append, Place.past_append, Place.past_of_notMem p hline]
        rw [ih (fun l hl => h l (List.mem_cons_of_mem line hl)) _ rfl]
        simp [Place.past, Place.step, Nat.add_comm, Nat.add_left_comm]
  have hstart := hpast { line := 0, column := 0 } rfl
  rw [Nat.zero_add] at hstart
  exact hstart

end Module
end TemplateModules
