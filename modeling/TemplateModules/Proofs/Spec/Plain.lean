import TemplateModules.Proofs.Spec.Occurrences
import TemplateModules.Proofs.Spec.Table

/-!
# Code that escapes nothing

A statement of generated code escapes a value by calling a function of the runtime.  Values, calls
and sections are written without this function, whatever stands in the literals of their text.
-/

namespace TemplateModules
namespace Spec

open Script Template Text

/-- A text leaves no literal open, and outside of literals it has no letter `x`.  Of all names in
the statements of generated code only that of the function that escapes values has this letter. -/
def Plain (text : String) : Prop :=
  ∃ ms, scan text.toList = some ms ∧ Mark.char 'x' ∉ ms

theorem Scans.plain {text : String} (h : Scans text) (hletter : 'x' ∉ text.toList) : Plain text := by
  obtain ⟨ms, hms⟩ := Option.isSome_iff_exists.mp h
  exact ⟨ms, hms, fun hmem => hletter (mem_of_mem_scanFrom hms hmem)⟩

namespace Plain

protected theorem append {a b : String} (ha : Plain a) (hb : Plain b) : Plain (a ++ b) := by
  obtain ⟨ms, hms, hfirst⟩ := ha
  obtain ⟨ns, hns, hsecond⟩ := hb
  exact ⟨ms ++ ns, scan_text_append hms hns, by simp [hfirst, hsecond]⟩

/-- Code around other code. -/
theorem around {a b c : String} (ha : Plain a) (hb : Plain b) (hc : Plain c) : Plain (a ++ b ++ c) :=
  (ha.append hb).append hc

end Plain

/-- What a scan meets in a call that escapes a value. -/
def escapedMarks (value : List Mark) : List Mark :=
  chars "container.escapeExpression(".toList ++ value ++ [.char ')']

theorem scan_escaped {code : String} {value : List Mark} (h : scan code.toList = some value) :
    scan ("container.escapeExpression(" ++ code ++ ")").toList = some (escapedMarks value) := by
  have hopen : scan "container.escapeExpression(".toList = some (chars _) := scan_chars (by decide)
  have hclose : scan ")".toList = some (chars _) := scan_chars (by decide)
  exact scan_text_append (scan_text_append hopen h) hclose

theorem plain_empty : Plain "" :=
  emitsWhole_empty.scans.plain (by decide)

theorem Fragment.plain
    {text : String} {before after : List Char} (own : Fragment text before after)
    (hletter : 'x' ∉ text.toList) : Plain text :=
  own.emits.scans.plain hletter

/-- The starts of mentions are no fragments, but plain as well. -/
theorem plain_head (kind : MentionKind) {text : String} (htext : text.toList = kind.head) :
    Plain text := by
  have hhead : '"' ∉ kind.head ∧ 'x' ∉ kind.head := by
    cases kind <;> decide +kernel
  rw [← htext] at hhead
  refine Scans.plain ?_ hhead.2
  rw [Scans, scan_chars hhead.1, Option.isSome_some]

theorem plain_quoted (value : String) : Plain (quoted value) :=
  ⟨_, scan_quoted value, by simp⟩

theorem plain_toString (n : Nat) : Plain (toString n) := by
  refine (emitsWhole_toString n).scans.plain fun hmem => ?_
  cases isDigit_of_mem_toString hmem

theorem plain_literalText (value : Literal) : Plain (literalText value) := by
  cases value with
  | text value => exact plain_quoted value
  | number numeral =>
      refine (emitsWhole_numeral numeral).scans.plain fun hmem => ?_
      have hmark := (inNumeral_of_isNumber numeral.isNumber_text).2 'x' hmem
      exact absurd hmark (by simp [InNumeral, numeralMarks, isDigit])
  | bool value =>
      cases value with
      | true => exact Fragment.trueLiteral.plain (by decide)
      | false => exact Fragment.falseLiteral.plain (by decide)
  | null => exact Fragment.nullLiteral.plain (by decide)
  | undefined => exact Fragment.undefinedLiteral.plain (by decide)

theorem Root.plain_code (root : Root) : Plain root.code := by
  have hclose := Fragment.closeBracket.plain (by decide)
  cases root with
  | context => exact Fragment.context.plain (by decide)
  | data => exact Fragment.data.plain (by decide)
  | parent depth => exact (plain_head .outer rfl).around (plain_toString depth) hclose
  | blockParam level index =>
      have hlevel := (plain_head .blockParam rfl).around (plain_toString level)
        (Fragment.innerBrackets.plain (by decide))
      exact hlevel.around (plain_toString index) hclose

theorem plain_texts (items : List String) : Plain (Json.texts items).write := by
  have hitems : Plain (Json.writeItems (items.map Json.text)) := by
    induction items with
    | nil => exact plain_empty
    | cons item items ih =>
        cases items with
        | nil => exact plain_quoted item
        | cons next items =>
            exact (plain_quoted item).around (Fragment.comma.plain (by decide)) ih
  exact (Fragment.openBracket.plain (by decide)).around hitems
    (Fragment.closeBracket.plain (by decide))

theorem Access.plain_code (access : Access) : Plain access.code := by
  obtain ⟨root, parts⟩ := access
  cases parts with
  | nil => exact root.plain_code
  | cons part parts =>
      have hroot := (Fragment.path.plain (by decide)).around root.plain_code
        (Fragment.spacedComma.plain (by decide))
      exact hroot.around (plain_texts (part :: parts)) (Fragment.closeParen.plain (by decide))

theorem SectionRef.plain_code (ref : SectionRef) : Plain ref.code := by
  have hnumber := (plain_head .child rfl).around (plain_toString ref.number)
    (Fragment.sectionData.plain (by decide))
  exact hnumber.around (plain_toString ref.params) (Fragment.sectionEnd.plain (by decide +kernel))

theorem plain_sectionsText (main : SectionRef) (inverse : Option SectionRef) :
    Plain (sectionsText main inverse) := by
  have hmain := (Fragment.mainSection.plain (by decide)).around main.plain_code
    (Fragment.inverseSection.plain (by decide))
  cases inverse with
  | none => exact hmain.append (Fragment.noSection.plain (by decide))
  | some ref => exact hmain.append ref.plain_code

theorem plain_placeText (tag : Span) : Plain (placeText tag) := by
  have hcolumn := Fragment.placeColumn.plain (by decide)
  have hstart := (Fragment.placeStart.plain (by decide +kernel)).around (plain_toString tag.line)
    hcolumn
  have hend := (hstart.around (plain_toString tag.column)
    (Fragment.placeEnd.plain (by decide +kernel))).around (plain_toString tag.endLine) hcolumn
  exact hend.around (plain_toString tag.endColumn) (Fragment.closeBraces.plain (by decide))

theorem plain_helperText (name : String) : Plain (helperText name) :=
  (plain_head .helper rfl).around (plain_quoted name) (Fragment.closeParen.plain (by decide))

theorem plain_partialText (name : String) : Plain (partialText name) :=
  (plain_head .inclusion rfl).around (plain_quoted name) (Fragment.closeParen.plain (by decide))

theorem plain_callee (name : String) (known : Bool) :
    Plain
      (if known then helperText name
        else "(" ++ helperText name ++ " || container.hooks.helperMissing)") := by
  cases known with
  | true => exact plain_helperText name
  | false =>
      exact (Fragment.openParen.plain (by decide)).around (plain_helperText name)
        (Fragment.missingHelper.plain (by decide +kernel))

end Spec
end TemplateModules
