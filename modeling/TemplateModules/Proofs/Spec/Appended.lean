import TemplateModules.Proofs.Spec.Accesses
import TemplateModules.Proofs.Spec.Calls
import TemplateModules.Proofs.Spec.Functions
import TemplateModules.Proofs.Template.Marks

/-!
# What statements append

Each function of generated code appends to its buffer what the statements of its section stand for,
one by one and in order.  Static text is a literal that reads as the text.  The value of a mustache
is escaped just where its tag has two braces and no ampersand, unless the options say that no value
is escaped; and nothing else is escaped.
-/

namespace TemplateModules
namespace Spec

open Script Template Text

/-- The function of the runtime that escapes a value is called somewhere in a script. -/
def Escapes (ms : List Mark) : Prop :=
  chars "escapeExpression".toList <:+: ms

theorem not_escapes_of_notMem {ms : List Mark} (h : Mark.char 'x' ∉ ms) : ¬Escapes ms := by
  intro hescapes
  apply h
  exact hescapes.subset (by decide)

/-- What a scan meets in a value that may be absent. -/
def orEmptyMarks (value : List Mark) : List Mark :=
  chars "((stack1 = ".toList ++ value ++
    (chars ") != null ? stack1 : ".toList ++ [.literal [], .char ')'])

theorem scan_orEmpty {code : String} {value : List Mark} (h : scan code.toList = some value) :
    scan (orEmpty code).toList = some (orEmptyMarks value) := by
  have hopen : scan "((stack1 = ".toList = some (chars _) := scan_chars (by decide)
  have hclose : scan ") != null ? stack1 : \"\")".toList =
      some (chars ") != null ? stack1 : ".toList ++ [.literal [], .char ')']) := by
    decide +kernel
  exact scan_text_append (scan_text_append hopen h) hclose

/-- A script is the value that a mustache shows where certain block parameters are in scope. -/
def IsShown
    (options : Options) (scopes : Scopes) (call : Call) (tag : Span) (value : List Mark) : Prop :=
  ∃ shown, (compileMustache options scopes tag call).result = .ok shown ∧
    scan shown.code.toList = some value

/-- A statement of generated code appends what a statement of a template stands for. -/
inductive Appends (options : Options) (source : List Char) (scopes : Scopes) :
    Statement → List Mark → Prop
  /-- Static text is appended as a literal, which reads as this text. -/
  | content {text : String} {raw : List Char}
      (htext : unquote (raw ++ ['"']) = some (text.toList, [])) :
      Appends options source scopes (.content text) (appendHead ++ [.literal raw])
  /-- A value is escaped as a whole, and once. -/
  | escaped {call : Call} {flag : Bool} {tag : Span} {piece : List Char} {value : List Mark}
      (hpiece : slice? source tag.start tag.stop = some piece)
      (hmarks : opensUnescaped piece = false) (hoption : options.noEscape = false)
      (hvalue : IsShown options scopes call tag value) (hwhole : Balanced value)
      (honce : ¬Escapes value) :
      Appends options source scopes (.mustache call flag tag) (appendHead ++ escapedMarks value)
  /-- A value is appended as it is. -/
  | unescaped {call : Call} {flag : Bool} {tag : Span} {piece : List Char} {value : List Mark}
      (hpiece : slice? source tag.start tag.stop = some piece)
      (hplain : opensUnescaped piece = true ∨ options.noEscape = true)
      (hvalue : IsShown options scopes call tag value) (hwhole : Balanced value)
      (hnever : ¬Escapes (appendHead ++ orEmptyMarks value)) :
      Appends options source scopes (.mustache call flag tag) (appendHead ++ orEmptyMarks value)
  | block {call : Call} {main : Program} {inverse : Option Program} {tag : Span} {ms : List Mark}
      (hnever : ¬Escapes (appendHead ++ ms)) :
      Appends options source scopes (.block call main inverse tag) (appendHead ++ ms)
  | inclusion {name : String} {context : Option Expr} {hash : List (String × Expr)} {tag : Span}
      {ms : List Mark} (hnever : ¬Escapes (appendHead ++ ms)) :
      Appends options source scopes (.inclusion name context hash tag) (appendHead ++ ms)

/-! ## Lines -/

theorem notMem_appendHead : Mark.char 'x' ∉ appendHead := by
  decide +kernel

theorem Line.marks_eq
    {line : Line SectionRef} {ms : List Mark} (h : scan line.code.toList = some ms) :
    line.marks = appendHead ++ ms := by
  obtain ⟨ms', hms', -, -, hmarks⟩ := line.exists_marks_eq
  rw [h] at hms'
  rw [hmarks, Option.some.inj hms']

theorem Line.marks_text (text : String) :
    Line.marks (.text text) = appendHead ++ [.literal (escaped text.toList)] :=
  Line.marks_eq (scan_quoted text)

theorem Line.marks_mustache
    {shown : Shown} {value : List Mark} (h : scan shown.code.toList = some value)
    (escapes : Bool) (tag : Span) :
    Line.marks (.mustache escapes shown tag) =
      appendHead ++ if escapes then escapedMarks value else orEmptyMarks value := by
  apply Line.marks_eq
  cases escapes with
  | true => exact scan_escaped h
  | false => exact scan_orEmpty h

/-- A line that does not escape its value escapes nothing. -/
theorem Line.not_escapes
    {line : Line SectionRef} (hplain : ∀ shown tag, line ≠ .mustache true shown tag) :
    ¬Escapes line.marks := by
  obtain ⟨ms, hms, hletter, -⟩ := line.carries_code hplain
  apply not_escapes_of_notMem
  rw [Line.marks_eq hms, List.mem_append, not_or]
  exact ⟨notMem_appendHead, hletter⟩

/-- What a mustache shows is one expression, and nothing is escaped inside it. -/
theorem Shown.exists_value (shown : Shown) :
    ∃ value, scan shown.code.toList = some value ∧ Balanced value ∧ ¬Escapes value := by
  obtain ⟨pieces, hpieces, -⟩ := shown.emits_code
  obtain ⟨ms, hms, hletter, -⟩ := shown.carries_code
  refine ⟨ms, hms, ?_, not_escapes_of_notMem hletter⟩
  rw [← Option.some.inj (hpieces.scan_eq.symm.trans hms)]
  exact hpieces.nest_eq

theorem Becomes.appends
    {options : Options} {source : List Char} {scopes : Scopes} {s : Statement}
    {line : Line SectionRef} (h : Becomes options scopes s line)
    (hsource : s.ShowsMarks source) :
    Appends options source scopes s line.marks := by
  cases h with
  | @text text hnonempty =>
      rw [Line.marks_text]
      exact .content (unquote_escaped text.toList [])
  | @mustache call flag shown tag hshown =>
      obtain ⟨piece, hpiece, hflag⟩ := hsource
      obtain ⟨value, hvalue, hwhole, honce⟩ := shown.exists_value
      have hisShown : IsShown options scopes call tag value := ⟨shown, hshown, hvalue⟩
      cases hescapes : flag && !options.noEscape with
      | true =>
          rw [Bool.and_eq_true, hflag, Bool.not_eq_true', Bool.not_eq_true'] at hescapes
          rw [Line.marks_mustache hvalue, if_pos rfl]
          exact .escaped hpiece hescapes.1 hescapes.2 hisShown hwhole honce
      | false =>
          rw [Bool.and_eq_false_iff, hflag, Bool.not_eq_false', Bool.not_eq_false'] at hescapes
          have hnever : ¬Escapes (Line.marks (.mustache false shown tag)) :=
            Line.not_escapes (by simp)
          rw [Line.marks_mustache hvalue, if_neg Bool.false_ne_true] at hnever ⊢
          exact .unescaped hpiece hescapes hisShown hwhole hnever
  | @block call main inverse opening tag ref other hopening =>
      have hnever : ¬Escapes (Line.marks (.block opening ref other tag)) :=
        Line.not_escapes (by simp)
      obtain ⟨ms, -, -, -, hmarks⟩ := Line.exists_marks_eq (.block opening ref other tag)
      rw [hmarks] at hnever ⊢
      exact .block hnever
  | @inclusion name context hash value fields tag hvalue hfields =>
      have hnever : ¬Escapes (Line.marks (.inclusion name value fields tag)) :=
        Line.not_escapes (by simp)
      obtain ⟨ms, -, -, -, hmarks⟩ := Line.exists_marks_eq (.inclusion name value fields tag)
      rw [hmarks] at hnever ⊢
      exact .inclusion hnever

/-! ## Templates -/

/-- Statements of regions are among those of the program. -/
theorem exists_section_of_mem_regions
    {outer : Scopes} {program : Program} {region : Region} (h : region ∈ program.regions outer) :
    ∃ p ∈ program :: program.sections, p.body = region.body := by
  have hbody := List.mem_map_of_mem (f := Region.body) h
  rw [program.map_body_regions outer] at hbody
  obtain ⟨p, hp, hbody⟩ := List.mem_map.mp hbody
  exact ⟨p, hp, hbody⟩

/-- The code of every template that compiles has one function for each of its sections, and each
function appends what the statements of its section stand for, one by one and in order.  Static text
is appended as it is, and the values that are escaped are just those of the mustaches with two
braces and without an ampersand, unless no value is to be escaped. -/
theorem code_appends
    {options : Options} {source : String} {artifact : Artifact}
    (h : (precompile options source).result = .ok artifact) :
    ∃ program ms functions, parse source = .ok program ∧ scan artifact.code.toList = some ms ∧
      HasFunctions ms functions ∧
      RelatesStatements (Appends options source.toList) (program.regions []) functions := by
  obtain ⟨program, ms, functions, hparse, hscan, hfunctions, hbecomes⟩ :=
    exists_functions_of_precompile
      (R := fun scopes s statement => s.ShowsMarks source.toList →
        Appends options source.toList scopes s statement)
      (fun _ _ _ hline => hline.appends) h
  refine ⟨program, ms, functions, hparse, hscan, hfunctions, ?_⟩
  have hmarks : ∀ region ∈ program.regions [], ∀ s ∈ region.appending, s.ShowsMarks source.toList := by
    intro region hregion s hs
    obtain ⟨p, hp, hbody⟩ := exists_section_of_mem_regions hregion
    exact showsMarks_of_parse hparse p hp s (hbody ▸ List.mem_of_mem_filter hs)
  refine ((List.forall₂_and_left _ _).mpr ⟨hmarks, hbecomes⟩).imp fun region statements hregion => ?_
  exact ((List.forall₂_and_left _ _).mpr hregion).imp fun s statement hs => hs.2 hs.1

/-- Text with quotes and a line end, values with two and three braces and with an ampersand, a block
with two sections, and a partial. -/
def mixedPage : String :=
  "<p title=\"\\\">\n\x7b\x7ba\x7d\x7d\x7b\x7b\x7bb\x7d\x7d\x7d\x7b\x7b~& c\x7d\x7d" ++
    "\x7b\x7b#if d\x7d\x7d\x7b\x7blookup d 'escapeExpression('\x7d\x7d\x7b\x7belse\x7d\x7d\t" ++
    "\x7b\x7b/if\x7d\x7d\x7b\x7b! none \x7d\x7d\x7b\x7b> p\x7d\x7d"

theorem mixedPage_appends :
    ∃ artifact, (precompile builtinOnly mixedPage).result = .ok artifact ∧
      ∃ program ms functions, parse mixedPage = .ok program ∧
        scan artifact.code.toList = some ms ∧ HasFunctions ms functions ∧
        RelatesStatements (Appends builtinOnly mixedPage.toList) (program.regions []) functions :=
  (exists_ok_of_isOk (by decide +kernel)).imp fun _ hartifact => ⟨hartifact, code_appends hartifact⟩

end Spec
end TemplateModules
