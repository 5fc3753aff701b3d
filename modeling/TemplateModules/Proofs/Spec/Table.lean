import Mathlib.Data.List.Nodup
import TemplateModules.Proofs.Script.Parts
import TemplateModules.Proofs.Spec.Sections

/-!
# The table of programs in generated code

The code of a template is read as what it is: an object with one function under each key, each
function with the statements that append to its buffer, and each statement with the programs that it
refers to.  The table that comes out holds one program for each section of a block, and the
references in it are nested as the sections are.
-/

namespace TemplateModules
namespace Spec

open Script Template Text

/-! ## Reading code -/

/-- How a statement that appends to the buffer starts. -/
def appendHead : List Mark :=
  chars "\n  buffer += ".toList

/-- A script is a whole function with given statements that append to its buffer. -/
def IsFunction (ms : List Mark) (statements : List (List Mark)) : Prop :=
  ∃ inner parts, ms = chars signature.toList ++ inner ++ [.char '\x7d'] ∧
    parts? ';' inner = some parts ∧ statements = parts.filter fun part => appendHead <+: part

/-- The fields of functions with numbers from some number on. -/
def numberedFields (number : Nat) (values : List (List Mark)) : List Field :=
  (values.zipIdx number).map fun (value, k) => { key := (toString k).toList, value }

/-- The field of the revision of the compiler. -/
def compilerField : Field where
  key := "compiler".toList
  value := chars "[8,".toList ++ [.literal ">= 4.3.0".toList, .char ']']

/-- The keys of what the code needs from the runtime. -/
def flagKeys : List String := ["useData", "useDepths", "useBlockParams", "usePartial"]

/-- A statement, given by the number of its function and its place there, refers to a program. -/
def RefersAt (functions : List (List (List Mark))) (i j : Nat) (ref : SectionRef) : Prop :=
  ∃ statements statement, functions[i]? = some statements ∧ statements[j]? = some statement ∧
    (Mention.child ref).Occurs statement

/-- The statements of a function are those of the body of a program, and they refer to functions
that are in turn those of the sections of its blocks. -/
inductive Mirrors (functions : List (List (List Mark))) :
    List (List Mark) → List Statement → Prop
  | nil : Mirrors functions [] []
  | silent
      {statements : List (List Mark)} {s : Statement} {rest : List Statement}
      (hsilent : s.isSilent = true) (hrest : Mirrors functions statements rest) :
      Mirrors functions statements (s :: rest)
  | plain
      {statement : List Mark} {statements : List (List Mark)} {s : Statement}
      {rest : List Statement}
      (hsilent : s.isSilent = false) (hblock : s.isBlock = false)
      (hrefs : ∀ ref, ¬(Mention.child ref).Occurs statement)
      (hrest : Mirrors functions statements rest) :
      Mirrors functions (statement :: statements) (s :: rest)
  | block
      {statement : List Mark} {statements inner : List (List Mark)} {call : Call}
      {main : Program} {tag : Span} {rest : List Statement} {k : Nat}
      (hrefs : ∀ ref, (Mention.child ref).Occurs statement ↔ ref = refTo k main)
      (hinner : functions[k]? = some inner) (hmain : Mirrors functions inner main.body)
      (hrest : Mirrors functions statements rest) :
      Mirrors functions (statement :: statements) (.block call main none tag :: rest)
  | alternative
      {statement : List Mark} {statements inner other : List (List Mark)} {call : Call}
      {main inverse : Program} {tag : Span} {rest : List Statement} {k l : Nat}
      (hrefs : ∀ ref, (Mention.child ref).Occurs statement ↔
        ref = refTo k main ∨ ref = refTo l inverse)
      (hlt : k < l)
      (hinner : functions[k]? = some inner) (hmain : Mirrors functions inner main.body)
      (hother : functions[l]? = some other) (hinverse : Mirrors functions other inverse.body)
      (hrest : Mirrors functions statements rest) :
      Mirrors functions (statement :: statements) (.block call main (some inverse) tag :: rest)

/-- Code is an object whose functions are the programs of a template, the main one first. -/
structure ProgramTable
    (program : Program) (ms : List Mark) (functions : List (List (List Mark))) : Prop where
  /-- The keys are those of the main function, the numbers from one on, each once, and of what the
  code needs from the runtime; and the functions are whole. -/
  object : ∃ main children flags,
    IsObject ms
      (compilerField :: { key := "main".toList, value := main } ::
        (numberedFields 1 children ++ flags)) ∧
    (∀ flag ∈ flags, ∃ key ∈ flagKeys, flag.key = key.toList) ∧
    children.length = program.sections.length ∧
    List.Forall₂ IsFunction (main :: children) functions
  /-- Wherever a program is referred to, it is one of the table, with as many block parameters as
  its section declares. -/
  declared : ∀ s, s <:+ ms → chars MentionKind.child.head <+: s →
    ∃ k p, 1 ≤ k ∧ program.sections[k - 1]? = some p ∧ (Mention.child (refTo k p)).marks <+: s
  /-- Programs are referred to by statements only. -/
  referred : ∀ ref, (Mention.child ref).Occurs ms ↔ ∃ i j, RefersAt functions i j ref
  /-- A program is referred to from the main function or from programs before it. -/
  earlier : ∀ i j ref, RefersAt functions i j ref → i < ref.number
  /-- There is exactly one statement that refers to a program. -/
  once : ∀ k, 1 ≤ k → k ≤ program.sections.length →
    ∃! place : Nat × Nat, ∃ ref, ref.number = k ∧ RefersAt functions place.1 place.2 ref
  mirrors : ∃ main, functions[0]? = some main ∧ Mirrors functions main program.body

/-! ## Statements -/

/-- Whether a value may mention something. -/
def Mention.inValue : Mention → Bool
  | helper _ => true
  | outer _ => true
  | blockParam _ _ => true
  | _ => false

theorem Root.all_inValue (root : Root) : root.mentions.all Mention.inValue = true := by
  cases root <;> rfl

mutual

/-- Values mention neither programs nor partials. -/
theorem Value.all_inValue : ∀ v : Value, v.mentions.all Mention.inValue = true
  | .literal _ => rfl
  | .access access => access.root.all_inValue
  | .call call => call.all_inValue

theorem HelperCall.all_inValue :
    ∀ call : HelperCall, call.mentions.all Mention.inValue = true
  | { name, known, params, hash, tag } => by
      have hparams := all_inValue_valuesMentions params
      have hhash := all_inValue_hashMentions hash
      rw [HelperCall.mentions, List.all_cons, List.all_append, hparams, hhash]
      rfl

theorem all_inValue_valuesMentions :
    ∀ vs : List Value, (valuesMentions vs).all Mention.inValue = true
  | [] => rfl
  | v :: vs => by
      rw [valuesMentions, List.all_append, v.all_inValue, all_inValue_valuesMentions vs]
      rfl

theorem all_inValue_hashMentions :
    ∀ hash : List (String × Value), (hashMentions hash).all Mention.inValue = true
  | [] => rfl
  | (_, v) :: hash => by
      rw [hashMentions, List.all_append, v.all_inValue, all_inValue_hashMentions hash]
      rfl

end

namespace Line

/-- Apart from its sections a line mentions what values do, and a partial if it includes one. -/
theorem mentions_cases {σ : Type} (line : Line σ) :
    line.mentions.all Mention.inValue = true ∧ line.usesPartial = false ∨
      ∃ name values, line.mentions = .invocation :: .inclusion name :: values ∧
        values.all Mention.inValue = true ∧ line.usesPartial = true := by
  cases line with
  | text s => exact Or.inl ⟨rfl, rfl⟩
  | mustache escaped shown tag =>
      refine Or.inl ⟨?_, rfl⟩
      cases shown with
      | value v => exact v.all_inValue
      | lambda access => exact access.root.all_inValue
      | helperOrField name access tag => exact access.root.all_inValue
  | block opening main inverse tag =>
      refine Or.inl ⟨?_, rfl⟩
      cases opening with
      | helper call => exact call.all_inValue
      | value access name tag => exact access.root.all_inValue
      | helperOrValue called access name tag => exact access.root.all_inValue
  | inclusion name context hash tag =>
      refine Or.inr ⟨name, _, rfl, ?_, rfl⟩
      have hcontext : (contextMentions context).all Mention.inValue = true := by
        cases context with
        | none => rfl
        | some v => exact v.all_inValue
      rw [List.all_append, hcontext, all_inValue_hashMentions hash]
      rfl

theorem child_notMem_mentions {σ : Type} (ref : SectionRef) (line : Line σ) :
    .child ref ∉ line.mentions := by
  intro hmem
  obtain ⟨hall, -⟩ | ⟨name, values, hmentions, hall, -⟩ := line.mentions_cases
  · cases List.all_eq_true.mp hall _ hmem
  · have hvalues : Mention.child ref ∈ values := by simpa [hmentions] using hmem
    cases List.all_eq_true.mp hall _ hvalues

/-- A line includes a partial just where it mentions the call that does so. -/
theorem usesPartial_iff {σ : Type} (line : Line σ) :
    line.usesPartial = true ↔ .invocation ∈ line.mentions := by
  obtain ⟨hall, hnone⟩ | ⟨name, values, hmentions, -, hsome⟩ := line.mentions_cases
  · rw [hnone]
    refine iff_of_false Bool.false_ne_true ?_
    intro hmem
    cases List.all_eq_true.mp hall _ hmem
  · rw [hsome, hmentions]
    exact iff_of_true rfl (List.mem_cons_self ..)

/-- The statement of a line, from the end of the line before it up to its semicolon. -/
def body (line : Line SectionRef) : String :=
  "\n" ++ ("  buffer += " ++ line.code)

/-- What a scan meets in the statement of a line. -/
def marks (line : Line SectionRef) : List Mark :=
  (scan line.body.toList).getD []

end Line

theorem scan_text_append
    {a b : String} {ms ns : List Mark}
    (ha : scan a.toList = some ms) (hb : scan b.toList = some ns) :
    scan (a ++ b).toList = some (ms ++ ns) := by
  rw [String.toList_append]
  exact scan_append ha hb

/-- Brackets around code that closes its own ones, as text. -/
theorem exists_whole_between
    {sep : Char} (before after : String) (outer : List Char) {code : String} {os cs : List Mark}
    {found : List Mention}
    (hbefore : scan before.toList = some os) (hopen : pass sep [] os = some outer)
    (houter : outer ≠ []) (hcode : EmitsWhole code found)
    (hafter : scan after.toList = some cs) (hclose : pass sep outer cs = some []) :
    ∃ ms, scan (before ++ code ++ after).toList = some ms ∧ Whole sep ms := by
  obtain ⟨pieces, hpieces, -⟩ := hcode
  refine ⟨os ++ pieces.flatMap Piece.marks ++ cs, ?_,
    whole_between hopen houter hpieces.nest_eq hclose⟩
  exact scan_text_append (scan_text_append hbefore hpieces.scan_eq) hafter

theorem exists_whole_orEmpty {code : String} {found : List Mention} (h : EmitsWhole code found) :
    ∃ ms, scan (orEmpty code).toList = some ms ∧ Whole ';' ms :=
  exists_whole_between "((stack1 = " ") != null ? stack1 : \"\")" [')', ')'] rfl
    (by decide) (by simp) h rfl (by decide)

namespace Line

/-- What a line appends is one expression. -/
theorem exists_whole_code (line : Line SectionRef) :
    ∃ ms, scan line.code.toList = some ms ∧ Whole ';' ms := by
  cases line with
  | text s =>
      obtain ⟨pieces, hpieces, hmarks⟩ := traces_quoted s []
      have hwhole : Whole ';' [.literal (escaped s.toList)] := rfl
      exact ⟨_, hmarks ▸ hpieces.scan_eq, hwhole⟩
  | mustache escaped shown tag =>
      cases escaped with
      | true =>
          exact exists_whole_between "container.escapeExpression(" ")" [')'] rfl
            (by decide) (by simp) shown.emits_code rfl (by decide)
      | false => exact exists_whole_orEmpty shown.emits_code
  | block opening main inverse tag =>
      exact exists_whole_orEmpty (opening.emits_code (emits_sectionsText main inverse))
  | inclusion name context hash tag =>
      exact exists_whole_orEmpty (emits_inclusionText name context hash)

/-- The statement of a line is what it appends, with the head of such statements in front. -/
theorem exists_marks_eq (line : Line SectionRef) :
    ∃ ms, scan line.code.toList = some ms ∧ Whole ';' ms ∧
      scan line.body.toList = some line.marks ∧ line.marks = appendHead ++ ms := by
  have hhead : scan "\n  buffer += ".toList = some appendHead := scan_chars (by decide)
  obtain ⟨ms, hcode, hwhole⟩ := line.exists_whole_code
  have hbody : line.body = "\n  buffer += " ++ line.code := by
    have hstart : "\n  buffer += " = "\n" ++ "  buffer += " := by decide
    rw [body, hstart, String.append_assoc]
  have hscan : scan line.body.toList = some (appendHead ++ ms) := by
    rw [hbody]
    exact scan_text_append hhead hcode
  have hmarks : line.marks = appendHead ++ ms := by rw [marks, hscan, Option.getD_some]
  exact ⟨ms, hcode, hwhole, hmarks ▸ hscan, hmarks⟩

/-- The statement of a line mentions what the line does, and its sections. -/
theorem mentions_marks (line : Line SectionRef) :
    (∀ m : Mention, m.Occurs line.marks ↔ m ∈ line.mentions ++ line.sections.map .child) ∧
      WellMade line.marks := by
  have hemits : EmitsWhole line.body (line.mentions ++ line.sections.map .child) := by
    have hnewline := Fragment.newline.emits
    have hindent := Fragment.indent.emits
    have hstart := Fragment.statementStart.emits
    have hprefix : "  buffer += " = "  " ++ "buffer += " := by decide
    rw [body, hprefix]
    exact hnewline.append ((hindent.append hstart).append line.emits_code)
  obtain ⟨-, -, -, hscan, -⟩ := line.exists_marks_eq
  obtain ⟨ms, hscan', hoccurs, hmade⟩ := hemits.exists_scan
  rw [hscan] at hscan'
  rw [Option.some.inj hscan']
  exact ⟨hoccurs, hmade⟩

/-- The statement of a line is one statement, it appends to the buffer, and it refers to the
sections of the line and to no other ones. -/
theorem marks_spec (line : Line SectionRef) :
    scan line.body.toList = some line.marks ∧ Whole ';' line.marks ∧ appendHead <+: line.marks ∧
      ∀ ref, (Mention.child ref).Occurs line.marks ↔ ref ∈ line.sections := by
  obtain ⟨ms, -, hwhole, hscan, hmarks⟩ := line.exists_marks_eq
  refine ⟨hscan, ?_, ?_, ?_⟩
  · have hhead : Whole ';' appendHead := by decide
    rw [hmarks]
    exact hhead.append hwhole
  · rw [hmarks]
    exact List.prefix_append ..
  · intro ref
    rw [line.mentions_marks.1]
    simp [line.child_notMem_mentions ref]

end Line

/-! ## Functions -/

/-- A line of a function is one statement, given by what a scan meets from the end of the line
before it up to its semicolon. -/
def IsStatement (line : String) (part : List Mark) : Prop :=
  scan ("\n" ++ line).toList = some (part ++ [.char ';']) ∧ Whole ';' part

theorem nest_of_pass
    {sep : Char} {before after : List Char} {ms : List Mark}
    (h : pass sep before ms = some after) :
    nest before ms = some after := by
  induction ms generalizing before with
  | nil => exact h
  | cons m ms ih =>
      rw [pass_cons] at h
      obtain ⟨between, hm, hms⟩ := Option.bind_eq_some_iff.mp h
      have hbracket : bracket before m = some between := by
        simp only [passMark] at hm
        split at hm
        · cases hm
        · exact hm
      rw [nest_cons, hbracket, Option.bind_some]
      exact ih hms

/-- Lines that are statements are the parts of their text, and behind them there is nothing but the
end of the last line. -/
theorem exists_parts_of_lines
    {lines : List String} {parts : List (List Mark)} (h : List.Forall₂ IsStatement lines parts) :
    ∃ ms, scan ("\n" ++ linesText lines).toList = some ms ∧ Balanced ms ∧
      parts? ';' ms = some (parts ++ [[.char '\n']]) := by
  induction h with
  | nil => exact ⟨[.char '\n'], by decide, rfl, rfl⟩
  | @cons line part lines parts hline hlines ih =>
      obtain ⟨hscan, hwhole⟩ := hline
      obtain ⟨ms, hms, hbalanced, hparts⟩ := ih
      have htext : "\n" ++ linesText (line :: lines) =
          ("\n" ++ line) ++ ("\n" ++ linesText lines) := by
        simp only [linesText, List.map_cons, String.join_cons, String.append_assoc]
      have hall : part ++ [.char ';'] ++ ms = part ++ .char ';' :: ms := by simp
      refine ⟨part ++ .char ';' :: ms, ?_, ?_, ?_⟩
      · rw [htext, ← hall]
        exact scan_text_append hscan hms
      · have hsemicolon : nest [] (.char ';' :: ms) = some [] := by
          rw [nest_cons]
          exact hbalanced
        rw [Script.Balanced, nest_append, nest_of_pass hwhole, Option.bind_some, hsemicolon]
      · rw [parts?_cons hwhole, hparts]
        rfl

/-- Whether a scan meets one statement that does not append to the buffer. -/
def isOtherStatement (ms : List Mark) : Bool :=
  ms == ms.dropLast ++ [.char ';'] && decide (Whole ';' ms.dropLast) &&
    !decide (appendHead <+: ms.dropLast)

/-- The lines of the compiler's own are statements that do not append to the buffer. -/
theorem exists_statement_of_chars
    {line : String} {cs : List Char} (hline : line = String.ofList cs)
    (hscan : (scan ('\n' :: cs)).any isOtherStatement = true) :
    ∃ part, IsStatement line part ∧ ¬appendHead <+: part := by
  cases hms : scan ('\n' :: cs) with
  | none => simp [hms] at hscan
  | some ms =>
      simp only [hms, Option.any_some, isOtherStatement, Bool.and_eq_true, beq_iff_eq,
        decide_eq_true_eq, Bool.not_eq_true', decide_eq_false_iff_not] at hscan
      obtain ⟨⟨hend, hwhole⟩, hhead⟩ := hscan
      have htext : ("\n" ++ line).toList = '\n' :: cs := by
        rw [hline, String.toList_append, String.toList_ofList]
        simp
      exact ⟨ms.dropLast, ⟨by rw [htext, hms, ← hend], hwhole⟩, hhead⟩

theorem exists_statements_of_preamble (strict : Bool) :
    ∃ parts, List.Forall₂ IsStatement (preamble strict) parts ∧
      ∀ part ∈ parts, ¬appendHead <+: part := by
  obtain ⟨first, hfirst, hfirst'⟩ :
      ∃ part, IsStatement variablesLine part ∧ ¬appendHead <+: part :=
    exists_statement_of_chars (ofList_append rfl rfl) (by decide)
  obtain ⟨second, hsecond, hsecond'⟩ :
      ∃ part, IsStatement lookupPropertyLine part ∧ ¬appendHead <+: part :=
    exists_statement_of_chars (ofList_append (ofList_append rfl rfl) rfl) (by decide +kernel)
  obtain ⟨third, hthird, hthird'⟩ :
      ∃ part, IsStatement (if strict then strictLookupPathLine else lookupPathLine) part ∧
        ¬appendHead <+: part := by
    cases strict with
    | true =>
        exact exists_statement_of_chars (ofList_append (ofList_append rfl rfl) rfl)
          (by decide +kernel)
    | false =>
        exact exists_statement_of_chars (ofList_append (ofList_append rfl rfl) rfl)
          (by decide +kernel)
  exact ⟨[first, second, third], .cons hfirst (.cons hsecond (.cons hthird .nil)),
    by simp [hfirst', hsecond', hthird']⟩

namespace Function

theorem code_eq (strict : Bool) (f : Function) :
    f.code strict = signature ++
        ("\n" ++ linesText (preamble strict ++ (f.lines.map ("  " ++ ·.statement) ++
          ["  return buffer;"]))) ++
      "\x7d" := by
  have hclosing : closingLines = linesText ["  return buffer;"] ++ "\x7d" := by
    decide
  simp only [code, opening, linesText_append, hclosing, String.append_assoc]

theorem forall_isStatement_lines (lines : List (Line SectionRef)) :
    List.Forall₂ IsStatement (lines.map ("  " ++ ·.statement)) (lines.map Line.marks) := by
  rw [List.forall₂_map_left_iff, List.forall₂_map_right_iff, List.forall₂_same]
  intro line _
  obtain ⟨hscan, hwhole, -⟩ := line.marks_spec
  have hsemicolon : scan ";".toList = some [.char ';'] := by decide
  have hstart : "  buffer += " = "  " ++ "buffer += " := by decide
  have htext : "\n" ++ ("  " ++ line.statement) = line.body ++ ";" := by
    simp only [Line.statement, Line.body, hstart, String.append_assoc]
  refine ⟨?_, hwhole⟩
  rw [htext]
  exact scan_text_append hscan hsemicolon

/-- What a scan meets in a function. -/
def marks (strict : Bool) (f : Function) : List Mark :=
  (scan (f.code strict).toList).getD []

/-- A function is read back with the statements of its lines. -/
theorem marks_spec (strict : Bool) (f : Function) :
    scan (f.code strict).toList = some (f.marks strict) ∧ Whole ',' (f.marks strict) ∧
      IsFunction (f.marks strict) (f.lines.map Line.marks) := by
  obtain ⟨first, hfirst, hsilent⟩ := exists_statements_of_preamble strict
  obtain ⟨last, hlast, hsilent'⟩ :
      ∃ part, IsStatement "  return buffer;" part ∧ ¬appendHead <+: part :=
    exists_statement_of_chars rfl (by decide)
  obtain ⟨inner, hinner, hbalanced, hparts⟩ := exists_parts_of_lines
    (List.rel_append hfirst (List.rel_append (forall_isStatement_lines f.lines)
      (.cons hlast .nil)))
  have hsignature : scan signature.toList = some (chars signature.toList) :=
    scan_chars (by decide)
  have hopen : pass ',' [] (chars signature.toList) = some ['\x7d'] := by decide
  have hclose : pass ',' ['\x7d'] [.char '\x7d'] = some [] := rfl
  have hscan : scan (f.code strict).toList =
      some (chars signature.toList ++ inner ++ [.char '\x7d']) := by
    rw [code_eq]
    exact scan_text_append (scan_text_append hsignature hinner) rfl
  have hmarks : f.marks strict = chars signature.toList ++ inner ++ [.char '\x7d'] := by
    rw [marks, hscan, Option.getD_some]
  have hwhole : Whole ',' (f.marks strict) :=
    hmarks ▸ whole_between hopen (List.cons_ne_nil _ _) hbalanced hclose
  refine ⟨hmarks ▸ hscan, hwhole, inner, _, hmarks, hparts, ?_⟩
  have hstart : first.filter (fun part => appendHead <+: part) = [] := by
    simpa using hsilent
  have hlines : (f.lines.map Line.marks).filter (fun part => appendHead <+: part) =
      f.lines.map Line.marks := by
    rw [List.filter_eq_self]
    intro part hpart
    obtain ⟨line, -, rfl⟩ := List.mem_map.mp hpart
    exact decide_eq_true line.marks_spec.2.2.1
  have hend : [last, [.char '\n']].filter (fun part => appendHead <+: part) = [] := by
    have hnewline : ¬appendHead <+: [.char '\n'] := by decide
    simp [hsilent', hnewline]
  rw [List.append_assoc, List.append_assoc, List.filter_append, hstart, List.filter_append, hlines,
    List.singleton_append, hend, List.nil_append, List.append_nil]

end Function

/-! ## Templates -/

/-- A field with a plain key. -/
theorem scan_field
    {key : String} {value : String} {ms : List Mark}
    (hkey : quoted key = "\"" ++ key ++ "\"") (hvalue : scan value.toList = some ms) :
    scan (",\"" ++ key ++ "\":" ++ value).toList =
      some (.char ',' :: Field.marks { key := key.toList, value := ms }) := by
  obtain ⟨pieces, hpieces, hmarks⟩ := traces_quoted key []
  have hescaped : escaped key.toList = key.toList := by
    have hchars := congrArg String.toList hkey
    rw [toList_quoted] at hchars
    simpa using hchars
  have hliteral : scan (quoted key).toList = some [.literal key.toList] := by
    rw [hpieces.scan_eq, hmarks, hescaped]
  have hopen : ",\"" = "," ++ "\"" := by decide
  have hclose : "\":" = "\"" ++ ":" := by decide
  have htext : ",\"" ++ key ++ "\":" ++ value = "," ++ (quoted key ++ (":" ++ value)) := by
    rw [hkey, hopen, hclose]
    simp only [String.append_assoc]
  have hcomma : scan ",".toList = some [.char ','] := by decide
  have hcolon : scan ":".toList = some [.char ':'] := by decide
  rw [htext]
  exact scan_text_append hcomma (scan_text_append hliteral (scan_text_append hcolon hvalue))

theorem scan_childrenText (strict : Bool) (number : Nat) (fs : List Function) :
    scan (childrenText strict number fs).toList =
      some ((numberedFields number (fs.map (Function.marks strict))).flatMap
        (.char ',' :: ·.marks)) := by
  induction fs generalizing number with
  | nil => rfl
  | cons f fs ih =>
      have hfirst := scan_field (quoted_toString number) (f.marks_spec strict).1
      rw [childrenText]
      exact scan_text_append hfirst (ih (number + 1))

/-- The field of something that the code needs from the runtime, if it needs it. -/
def flagField (needed : Bool) (key : String) : List Field :=
  if needed then [{ key := key.toList, value := chars "true".toList }] else []

theorem scan_flag
    (needed : Bool) (flag key : String)
    (h : scan flag.toList =
      some (.char ',' :: Field.marks { key := key.toList, value := chars "true".toList })) :
    scan (if needed then flag else "").toList =
      some ((flagField needed key).flatMap (.char ',' :: ·.marks)) := by
  cases needed with
  | true => simpa [flagField] using h
  | false => rfl

namespace Layout

/-- The fields of what the code of a template needs from the runtime. -/
def flagFields (layout : Layout) : List Field :=
  flagField true "useData" ++ flagField layout.usesDepths "useDepths" ++
    flagField layout.usesBlockParams "useBlockParams" ++
    flagField layout.usesPartials "usePartial"

theorem scan_flagsText (layout : Layout) :
    scan layout.flagsText.toList = some (layout.flagFields.flatMap (.char ',' :: ·.marks)) := by
  have hdata : scan ",\"useData\":true".toList =
      some ((flagField true "useData").flatMap (.char ',' :: ·.marks)) := by
    decide
  have hdepths := scan_flag layout.usesDepths ",\"useDepths\":true" "useDepths"
    (by decide)
  have hparams := scan_flag layout.usesBlockParams ",\"useBlockParams\":true" "useBlockParams"
    (by decide)
  have hpartial := scan_flag layout.usesPartials ",\"usePartial\":true" "usePartial"
    (by decide)
  rw [flagFields, List.flatMap_append, List.flatMap_append, List.flatMap_append]
  exact scan_text_append (scan_text_append (scan_text_append hdata hdepths) hparams) hpartial

theorem flagFields_spec (layout : Layout) :
    ∀ field ∈ layout.flagFields,
      (∃ key ∈ flagKeys, field.key = key.toList) ∧ Whole ',' field.value := by
  have hflag (needed : Bool) {key : String} (hkey : key ∈ flagKeys) :
      ∀ field ∈ flagField needed key,
        (∃ key ∈ flagKeys, field.key = key.toList) ∧ Whole ',' field.value := by
    intro field hfield
    cases needed with
    | true =>
        obtain rfl : field = { key := key.toList, value := chars "true".toList } := by
          simpa [flagField] using hfield
        have hwhole : Whole ',' (chars "true".toList) := by decide
        exact ⟨⟨key, hkey, rfl⟩, hwhole⟩
    | false => simp [flagField] at hfield
  rw [flagFields, List.forall_mem_append, List.forall_mem_append, List.forall_mem_append]
  exact ⟨⟨⟨hflag _ (by decide), hflag _ (by decide)⟩, hflag _ (by decide)⟩, hflag _ (by decide)⟩

/-- The code of a template is an object with these fields. -/
theorem exists_fields (strict : Bool) (layout : Layout) :
    ∃ ms, scan (layout.code strict).toList = some ms ∧
      IsObject ms
        (compilerField :: { key := "main".toList, value := layout.main.marks strict } ::
          (numberedFields 1 (layout.children.map (Function.marks strict)) ++
            layout.flagFields)) := by
  have hopen : scan "\x7b".toList = some [.char '\x7b'] := by decide
  have hclose : scan "\x7d".toList = some [.char '\x7d'] := by decide
  have hversion : scan "\"compiler\":[8,\">= 4.3.0\"]".toList = some compilerField.marks := by
    decide
  have hquoted : quoted "main" = "\"" ++ "main" ++ "\"" := by decide
  have hmain := scan_field hquoted (layout.main.marks_spec strict).1
  have hheading : heading =
      "\x7b" ++ "\"compiler\":[8,\">= 4.3.0\"]" ++ (",\"" ++ "main" ++ "\":") := by
    decide
  have htext : layout.code strict =
      "\x7b" ++ ("\"compiler\":[8,\">= 4.3.0\"]" ++
        ((",\"" ++ "main" ++ "\":" ++ layout.main.code strict) ++
          (childrenText strict 1 layout.children ++ layout.flagsText))) ++ "\x7d" := by
    rw [code, hheading]
    simp only [String.append_assoc]
  have hscan := scan_text_append
    (scan_text_append hopen
      (scan_text_append hversion
        (scan_text_append hmain
          (scan_text_append (scan_childrenText strict 1 layout.children) layout.scan_flagsText))))
    hclose
  rw [← htext] at hscan
  have hfields : ∀ field ∈ ({ key := "main".toList, value := layout.main.marks strict } : Field) ::
      (numberedFields 1 (layout.children.map (Function.marks strict)) ++ layout.flagFields),
      Whole ',' field.value := by
    have hfunction (f : Function) : Whole ',' (f.marks strict) := (f.marks_spec strict).2.1
    rw [List.forall_mem_cons, List.forall_mem_append]
    dsimp only
    refine ⟨hfunction layout.main, ?_, fun field h => (layout.flagFields_spec field h).2⟩
    intro field hfield
    simp only [numberedFields, List.mem_map, Prod.exists] at hfield
    obtain ⟨value, k, hvalue, rfl⟩ := hfield
    obtain ⟨f, -, rfl⟩ := List.mem_map.mp (List.fst_mem_of_mem_zipIdx hvalue)
    dsimp only
    exact hfunction f
  have hcompiler : Whole ',' compilerField.value := by decide
  have hobject := isObject_of_fields hcompiler hfields
  rw [List.flatMap_cons, List.flatMap_append] at hobject
  exact ⟨_, hscan, hobject⟩

end Layout

/-! ## The table -/

theorem Laid.mirrors
    {n : Nat} {body : List Statement} {lines : List (Line SectionRef)} {fs : List Function}
    (h : Laid n body lines fs) {table : List (List (List Mark))}
    (htable : ∀ f ∈ fs.zipIdx n, table[f.2]? = some (f.1.lines.map Line.marks)) :
    Mirrors table (lines.map Line.marks) body := by
  induction h with
  | nil n => exact .nil
  | silent hsilent hrest ih => exact .silent hsilent (ih htable)
  | @plain n s line rest lines fs hsilent hblock hsections hrest ih =>
      refine .plain hsilent hblock ?_ (ih htable)
      intro ref
      simp [line.marks_spec.2.2.2 ref, hsections]
  | @block n call main tag tag' opening rest lines inner fs later hmain hrest ihmain ihrest =>
      rw [List.cons_append, List.zipIdx_cons, List.zipIdx_append, List.forall_mem_cons,
        List.forall_mem_append] at htable
      obtain ⟨hinner, hfs, hlater⟩ := htable
      refine .block ?_ hinner (ihmain hfs) (ihrest hlater)
      intro ref
      simp [(Line.block opening (refTo n main) none tag').marks_spec.2.2.2 ref, Line.sections]
  | @alternative n call main inverse tag tag' opening rest lines inner other fs gs later
      hmain hinverse hrest ihmain ihinverse ihrest =>
      rw [List.cons_append, List.cons_append, List.zipIdx_cons, List.zipIdx_append,
        List.zipIdx_cons, List.zipIdx_append, List.forall_mem_cons, List.forall_mem_append,
        List.forall_mem_cons, List.forall_mem_append] at htable
      obtain ⟨hinner, hfs, hother, hgs, hlater⟩ := htable
      refine .alternative ?_ (by omega) hinner (ihmain hfs) hother (ihinverse hgs) (ihrest hlater)
      intro ref
      simp [(Line.block opening (refTo n main) (some (refTo (n + 1 + fs.length) inverse))
        tag').marks_spec.2.2.2 ref, Line.sections]

/-- What is read from functions refers to what their lines refer to. -/
theorem refersAt_iff
    {fs : List Function} {i j : Nat} {ref : SectionRef} :
    RefersAt (fs.map fun f => f.lines.map Line.marks) i j ref ↔
      ∃ f line, fs[i]? = some f ∧ f.lines[j]? = some line ∧ ref ∈ line.sections := by
  constructor
  · rintro ⟨statements, statement, hi, hj, hoccurs⟩
    obtain ⟨f, hf, rfl⟩ : ∃ f, fs[i]? = some f ∧ f.lines.map Line.marks = statements := by
      simpa using hi
    obtain ⟨line, hline, rfl⟩ : ∃ line, f.lines[j]? = some line ∧ line.marks = statement := by
      simpa using hj
    exact ⟨f, line, hf, hline, (line.marks_spec.2.2.2 ref).mp hoccurs⟩
  · rintro ⟨f, line, hf, hline, href⟩
    exact ⟨f.lines.map Line.marks, line.marks, by simp [hf], by simp [hline],
      (line.marks_spec.2.2.2 ref).mpr href⟩

/-- An item of a list without repetitions comes from one place. -/
theorem eq_of_nodup_flatMap
    {α β : Type} {as : List α} {f : α → List β} (h : (as.flatMap f).Nodup)
    {i j : Nat} {a b : α} {x : β}
    (ha : as[i]? = some a) (hb : as[j]? = some b) (hxa : x ∈ f a) (hxb : x ∈ f b) :
    i = j := by
  have hpairs := List.pairwise_iff_getElem.mp (List.nodup_flatMap.mp h).2
  obtain ⟨hi, rfl⟩ := List.getElem?_eq_some_iff.mp ha
  obtain ⟨hj, rfl⟩ := List.getElem?_eq_some_iff.mp hb
  rcases Nat.lt_trichotomy i j with hlt | heq | hlt
  · exact absurd hxb (hpairs i j hi hj hlt hxa)
  · exact heq
  · exact absurd hxa (hpairs j i hj hi hlt hxb)

/-- Programs of a template are referred to by the lines of its functions only. -/
theorem child_mem_mentions {layout : Layout} {ref : SectionRef} :
    .child ref ∈ layout.mentions ↔ ∃ f ∈ layout.functions, ref ∈ f.refs := by
  have hline (line : Line SectionRef) : .child ref ∉ line.mentions :=
    line.child_notMem_mentions ref
  simp [Layout.mentions, Function.mentions, Function.refs, hline]

variable {program : Program} {layout : Layout}

/-- The functions of a layout are those of a program, with the main function in front. -/
def Layout.Of (layout : Layout) (program : Program) : Prop :=
  Laid 1 program.body layout.main.lines layout.children

namespace Layout.Of

theorem perm_refs (h : layout.Of program) :
    (layout.functions.flatMap Function.refs).Perm (refsFrom 1 program.sections) := by
  rw [program.sections_eq]
  exact Laid.perm_refs h

theorem mem_refs (h : layout.Of program) {ref : SectionRef} :
    (∃ f ∈ layout.functions, ref ∈ f.refs) ↔ ref ∈ refsFrom 1 program.sections := by
  rw [← h.perm_refs.mem_iff, List.mem_flatMap]

theorem number_lt (h : layout.Of program) :
    ∀ f ∈ layout.functions.zipIdx, ∀ ref ∈ f.1.refs, f.2 < ref.number := by
  rw [Layout.functions, List.zipIdx_cons, List.forall_mem_cons]
  exact ⟨fun ref href => Laid.le_number_of_mem h href, Laid.number_lt h⟩

/-- The numbers that functions refer to are those of the programs, each once. -/
theorem nodup_numbers (h : layout.Of program) :
    (layout.functions.flatMap fun f => f.refs.map SectionRef.number).Nodup := by
  rw [← List.map_flatMap]
  exact (h.perm_refs.map SectionRef.number).nodup_iff.mpr (nodup_numbers_refsFrom 1 _)

/-- Every program is referred to from one line of one function. -/
theorem existsUnique_place
    (h : layout.Of program) {k : Nat} (hpos : 1 ≤ k) (hle : k ≤ program.sections.length) :
    ∃! place : Nat × Nat, ∃ ref f line, ref.number = k ∧ layout.functions[place.1]? = some f ∧
      f.lines[place.2]? = some line ∧ ref ∈ line.sections := by
  have hbound : k - 1 < program.sections.length := by omega
  have hmem : refTo k program.sections[k - 1] ∈ refsFrom 1 program.sections :=
    mem_refsFrom.mpr ⟨hpos, _, List.getElem?_eq_getElem hbound, rfl⟩
  obtain ⟨f, hf, href⟩ := h.mem_refs.mpr hmem
  obtain ⟨i, hi⟩ := List.mem_iff_getElem?.mp hf
  obtain ⟨line, hline, href⟩ := List.mem_flatMap.mp href
  obtain ⟨j, hj⟩ := List.mem_iff_getElem?.mp hline
  refine ⟨(i, j), ⟨_, f, line, rfl, hi, hj, href⟩, ?_⟩
  rintro ⟨i', j'⟩ ⟨ref, f', line', hnumber, hi', hj', href'⟩
  have hsame : k ∈ line.sections.map SectionRef.number ∧
      k ∈ line'.sections.map SectionRef.number :=
    ⟨List.mem_map_of_mem href, hnumber ▸ List.mem_map_of_mem href'⟩
  have hnumbers (g : Function) : g.refs.map SectionRef.number =
      g.lines.flatMap fun line => line.sections.map SectionRef.number := by
    rw [Function.refs, List.map_flatMap]
  have hin : k ∈ f.refs.map SectionRef.number := by
    rw [hnumbers]
    exact List.mem_flatMap.mpr ⟨line, hline, hsame.1⟩
  have hin' : k ∈ f'.refs.map SectionRef.number := by
    rw [hnumbers]
    exact List.mem_flatMap.mpr ⟨line', List.mem_of_getElem? hj', hsame.2⟩
  obtain rfl : i' = i := eq_of_nodup_flatMap h.nodup_numbers hi' hi hin' hin
  obtain rfl : f' = f := Option.some.inj (hi'.symm.trans hi)
  have hlines := (List.nodup_flatMap.mp h.nodup_numbers).1 f' hf
  rw [hnumbers] at hlines
  obtain rfl : j' = j := eq_of_nodup_flatMap hlines hj' hj hsame.2 hsame.1
  rfl

end Layout.Of

/-- The functions of a layout as they are read from its code. -/
def Layout.statements (layout : Layout) : List (List (List Mark)) :=
  layout.functions.map fun f => f.lines.map Line.marks

theorem Layout.forall_isFunction (strict : Bool) (layout : Layout) :
    List.Forall₂ IsFunction
      (layout.main.marks strict :: layout.children.map (Function.marks strict))
      layout.statements := by
  rw [← List.map_cons, Layout.statements, Layout.functions, List.forall₂_map_left_iff,
    List.forall₂_map_right_iff, List.forall₂_same]
  exact fun f _ => (f.marks_spec strict).2.2

/-- The code of a layout holds a table of the programs that it is a layout of. -/
theorem Layout.Of.table (strict : Bool) (h : layout.Of program) :
    ∃ ms, scan (layout.code strict).toList = some ms ∧
      ProgramTable program ms layout.statements := by
  obtain ⟨ms, hscan, hobject⟩ := layout.exists_fields strict
  obtain ⟨ms', hscan', hoccurs, hmade⟩ := (layout.emits_code strict).exists_scan
  obtain rfl : ms' = ms := Option.some.inj (hscan'.symm.trans hscan)
  refine ⟨ms', hscan, ?_, ?_, ?_, ?_, ?_, ?_⟩
  · refine ⟨_, _, _, hobject, fun flag hflag => (layout.flagFields_spec flag hflag).1, ?_,
      layout.forall_isFunction strict⟩
    rw [List.length_map, program.sections_eq]
    exact Laid.length_eq h
  · intro s hs hhead
    obtain ⟨m, hkind, hm⟩ := hmade s hs .child hhead
    cases m <;> cases hkind
    next ref =>
      have hmem := (hoccurs (.child ref)).mp (hm.isInfix.trans hs.isInfix)
      obtain ⟨hpos, p, hp, href⟩ := mem_refsFrom.mp (h.mem_refs.mp (child_mem_mentions.mp hmem))
      exact ⟨ref.number, p, hpos, hp, href ▸ hm⟩
  · intro ref
    rw [hoccurs, child_mem_mentions]
    constructor
    · rintro ⟨f, hf, href⟩
      obtain ⟨i, hi⟩ := List.mem_iff_getElem?.mp hf
      obtain ⟨line, hline, href⟩ := List.mem_flatMap.mp href
      obtain ⟨j, hj⟩ := List.mem_iff_getElem?.mp hline
      exact ⟨i, j, refersAt_iff.mpr ⟨f, line, hi, hj, href⟩⟩
    · rintro ⟨i, j, hrefers⟩
      obtain ⟨f, line, hi, hj, href⟩ := refersAt_iff.mp hrefers
      exact ⟨f, List.mem_of_getElem? hi,
        List.mem_flatMap.mpr ⟨line, List.mem_of_getElem? hj, href⟩⟩
  · intro i j ref hrefers
    obtain ⟨f, line, hi, hj, href⟩ := refersAt_iff.mp hrefers
    exact h.number_lt (f, i) (List.mk_mem_zipIdx_iff_getElem?.mpr hi) ref
      (List.mem_flatMap.mpr ⟨line, List.mem_of_getElem? hj, href⟩)
  · intro k hpos hle
    obtain ⟨place, ⟨ref, f, line, hnumber, hplace⟩, hunique⟩ := h.existsUnique_place hpos hle
    refine ⟨place, ⟨ref, hnumber, refersAt_iff.mpr ⟨f, line, hplace⟩⟩, ?_⟩
    rintro place' ⟨ref', hnumber', hrefers⟩
    obtain ⟨f', line', hplace'⟩ := refersAt_iff.mp hrefers
    exact hunique place' ⟨ref', f', line', hnumber', hplace'⟩
  · refine ⟨layout.main.lines.map Line.marks, rfl, Laid.mirrors h ?_⟩
    intro f hf
    have hchild : layout.children[f.2 - 1]? = some f.1 :=
      (List.mem_zipIdx_iff_le_and_getElem?_sub.mp hf).2
    have hle : 1 ≤ f.2 := (List.mem_zipIdx_iff_le_and_getElem?_sub.mp hf).1
    have hindex : f.2 = f.2 - 1 + 1 := by omega
    rw [Layout.statements, Layout.functions, List.map_cons, hindex, List.getElem?_cons_succ]
    simp [hchild]

/-- A section that a program compiles to has a layout that is one of the program. -/
theorem layout_of_compileSection
    {options : Options} {scopes : Scopes} {main : Section}
    (h : (compileSection options scopes program).result = .ok main) :
    main.layout.Of program := by
  obtain ⟨lines, rfl, hlines⟩ := exists_of_compileSection h
  exact laid_compileLines (program.blockParams :: scopes) program.body lines 1 hlines

/-- The code of every template that compiles holds a table of its programs, and the references in
it are nested as the blocks of the template are. -/
theorem code_table
    {options : Options} {source : String} {artifact : Artifact}
    (h : (precompile options source).result = .ok artifact) :
    ∃ program ms functions, parse source = .ok program ∧ scan artifact.code.toList = some ms ∧
      ProgramTable program ms functions := by
  obtain ⟨program, main, hparse, hmain, rfl⟩ := exists_section_of_precompile h
  obtain ⟨ms, hscan, htable⟩ := (layout_of_compileSection hmain).table options.strict
  exact ⟨program, ms, _, hparse, hscan, htable⟩

/-- A block with a parameter around a block with two branches, and a block in one of them. -/
def nestedBlocks : String :=
  "\x7b\x7b#each rows as |row|\x7d\x7d\x7b\x7b#if row\x7d\x7d" ++
    "\x7b\x7b#tag\x7d\x7da\x7b\x7b/tag\x7d\x7d\x7b\x7belse\x7d\x7db" ++
    "\x7b\x7b/if\x7d\x7d\x7b\x7b/each\x7d\x7d"

theorem code_table_of_nested :
    ∃ artifact,
      (precompile { srcName := none, knownHelpers := [], knownHelpersOnly := false, extra := [] }
        nestedBlocks).result = .ok artifact ∧
      ∃ program ms functions,
        parse nestedBlocks = .ok program ∧ scan artifact.code.toList = some ms ∧
          ProgramTable program ms functions :=
  (exists_ok_of_isOk (by decide +kernel)).imp fun _ hartifact => ⟨hartifact, code_table hartifact⟩

end Spec
end TemplateModules
