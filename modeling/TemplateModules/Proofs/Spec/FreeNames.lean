import TemplateModules.Proofs.Module.Binding
import TemplateModules.Proofs.Script.Reading
import TemplateModules.Proofs.Spec.Emitted

/-!
# The free names of emitted code

The functions of a template declare the names that their statements use.  What they take from
outside is one global object, to ask whether a field is a context's own, and the value `undefined`.

For each function that writes code there is a lemma: reading the text leaves no trace where the
names of a template's function are known.
-/

namespace TemplateModules
namespace Spec

open Script Template Text TemplateModules.Module

/-- The names that every function of a template declares. -/
def functionNames : List String :=
  ["container", "depth0", "helpers", "partials", "data", "blockParams", "depths", "stack1", "alias1",
    "buffer", "lookupProperty", "lookupPath"]

/-- Code can stand wherever the names of a template's function are known, and only `undefined` is
free in it. -/
abbrev Reads (text : String) (opened left : Nat) (front back : Bool) : Prop :=
  Settles ("undefined" :: functionNames) ["undefined"] text opened left front back

/-- Code that closes its own brackets and can start and end with words. -/
abbrev ReadsWhole (text : String) : Prop :=
  Reads text 0 0 false false

/-! ## Phrases -/

/-- The texts that the statements of a function are written with.  With each go the numbers of
brackets that are open in front of it and behind it, and whether it certainly starts and ends
outside of words. -/
inductive Phrase : String → Nat → Nat → Bool → Bool → Prop where
  | closeParenthesis : Phrase ")" 1 0 true true
  | closeBracket : Phrase "]" 1 0 true true
  | closeBrace : Phrase "\x7d" 1 0 true true
  | comma : Phrase "," 0 0 true true
  | colon : Phrase ":" 0 0 true true
  | separator : Phrase ", " 1 1 true true
  | depths : Phrase "depths[" 0 1 false true
  | blockParams : Phrase "blockParams[" 0 1 false true
  | innerBrackets : Phrase "][" 1 1 true true
  | openBracket : Phrase "[" 0 1 true true
  | path : Phrase "lookupPath(" 0 1 false true
  | section : Phrase "container.program(" 0 1 false true
  | sectionData : Phrase ", data, " 1 1 true true
  | sectionEnd : Phrase ", blockParams, depths)" 1 0 true true
  | mainSection : Phrase ",\"fn\":" 0 0 true true
  | inverseSection : Phrase ",\"inverse\":" 0 0 true true
  | noSection : Phrase "container.noop" 0 0 false false
  | placeStart : Phrase "\x7b\"start\":\x7b\"line\":" 0 2 true true
  | placeColumn : Phrase ",\"column\":" 2 2 true true
  | placeEnd : Phrase "\x7d,\"end\":\x7b\"line\":" 2 2 true true
  | closeBraces : Phrase "\x7d\x7d" 2 0 true true
  | name : Phrase "\x7b\"name\":" 0 1 true true
  | hash : Phrase ",\"hash\":" 1 1 true true
  | dataAndPlace : Phrase ",\"data\":data,\"loc\":" 1 1 true true
  | helper : Phrase "lookupProperty(helpers," 0 1 false true
  | openParenthesis : Phrase "(" 0 1 false true
  | missingHelper : Phrase " || container.hooks.helperMissing)" 1 0 true true
  | call : Phrase ".call(alias1" 0 1 false false
  | openBrace : Phrase "\x7b" 0 1 true true
  | lambda : Phrase "container.lambda(" 0 1 false true
  | lambdaEnd : Phrase ", depth0)" 1 0 true true
  | fieldTest : Phrase "(typeof (stack1 = (" 0 3 true true
  | alternative : Phrase " || " 3 3 true true
  | fieldCall : Phrase ")) === \"function\" ? stack1.call(alias1, " 3 2 true true
  | fieldEnd : Phrase ") : stack1)" 2 0 true true
  | noHash : Phrase noHash 0 0 true true
  | valueBlock : Phrase "container.hooks.blockHelperMissing.call(depth0, " 0 1 false true
  | blockTest : Phrase "(typeof (stack1 = " 0 2 true true
  | blockCall : Phrase ") === \"function\" ? stack1.call(alias1, " 2 2 true true
  | spacedColon : Phrase ") : " 2 1 true true
  | inclusionHash : Phrase ",\"hash\":\x7b" 0 1 true true
  | inclusion : Phrase "container.invokePartial(" 0 1 false true
  | partialValue : Phrase "lookupProperty(partials," 0 1 false true
  | inclusionName : Phrase ",\x7b\"name\":" 1 2 true true
  | inclusionData : Phrase ",\"data\":data,\"helpers\":helpers,\"partials\":partials," 0 0 true true
  | inclusionEnd : Phrase "\"decorators\":container.decorators\x7d)" 2 0 true true
  | stackStart : Phrase "((stack1 = " 0 2 true true
  | stackEnd : Phrase ") != null ? stack1 : \"\")" 2 0 true true
  | escape : Phrase "container.escapeExpression(" 0 1 false true
  | statementStart : Phrase "buffer += " 0 0 false true
  | statementEnd : Phrase ";" 0 0 true true
  | indent : Phrase "  " 0 0 true true
  | newline : Phrase "\n" 0 0 true true
  | contextValue : Phrase "depth0" 0 0 false false
  | dataValue : Phrase "data" 0 0 false false
  | plus : Phrase (String.ofList ['+']) 0 0 true true
  | minus : Phrase (String.ofList ['-']) 0 0 true true
  | trueLiteral : Phrase "true" 0 0 false false
  | falseLiteral : Phrase "false" 0 0 false false
  | nullLiteral : Phrase "null" 0 0 false false
  | undefinedLiteral : Phrase "undefined" 0 0 false false

theorem Phrase.reads
    {text : String} {opened left : Nat} {front back : Bool}
    (phrase : Phrase text opened left front back) :
    Reads text opened left front back := by
  cases phrase <;> exact .of_check rfl (by decide +kernel)

/-! ## Values -/

/-- Whether a character stands in the part of a number that is read as one word. -/
def InNumber (c : Char) : Prop :=
  continuesIdentifier c = true ∨ c = '.'

/-- A number is read as one word, and names nothing. -/
theorem reads_number
    {c : Char} {cs : List Char} (hc : c.isDigit = true) (hcs : ∀ d ∈ cs, InNumber d) :
    ReadsWhole (String.ofList (c :: cs)) := by
  have hstart := continuesIdentifier_of_isDigit hc
  have hquote : '"' ∉ c :: cs := by
    intro hmem
    rcases List.mem_cons.mp hmem with rfl | hmem
    · cases hstart
    · exact (hcs _ hmem).elim nofun nofun
  have htokens := tokens_chars_of_word hstart fun d hd => (hcs d hd).imp_right fun h => ⟨h, hc⟩
  have hnumber : (String.ofList (c :: cs)).toList.head?.any Char.isDigit = true := by
    rw [String.toList_ofList]
    exact hc
  intro base _
  refine ⟨[], by simp, chars (c :: cs), ?_, .none _, fun met => ?_⟩
  · rw [String.toList_ofList]
    exact scan_chars hquote
  · rw [htokens, List.append_nil, Reader.readAll_cons]
    exact Reader.readWord_of_digit hnumber _ met

theorem reads_digits {cs : List Char} (hne : cs ≠ []) (h : ∀ c ∈ cs, c.isDigit = true) :
    ReadsWhole (String.ofList cs) := by
  cases cs with
  | nil => exact absurd rfl hne
  | cons c cs =>
      obtain ⟨hc, hcs⟩ := List.forall_mem_cons.mp h
      exact reads_number hc fun d hd => Or.inl (continuesIdentifier_of_isDigit (hcs d hd))

theorem reads_toString (n : Nat) : ReadsWhole (toString n) := by
  have hne : (toString n).toList ≠ [] := by
    rw [toList_toString_nat]
    exact Nat.toDigits_ne_nil
  have hreads := reads_digits hne fun c hc => isDigit_of_mem_toString hc
  rwa [String.ofList_toList] at hreads

theorem inNumber_of_isDigit {c : Char} (h : Template.isDigit c = true) : InNumber c :=
  Or.inl (continuesIdentifier_of_isDigit h)

theorem forall_mem_dropWhile
    {cs word tail : List Char} (hword : ∀ c ∈ word, InNumber c)
    (h : cs.dropWhile Template.isDigit = word ++ tail) :
    ∃ more, (∀ c ∈ more, InNumber c) ∧ cs = more ++ tail := by
  refine ⟨cs.takeWhile Template.isDigit ++ word, ?_, ?_⟩
  · intro c hc
    rcases List.mem_append.mp hc with hc | hc
    · exact inNumber_of_isDigit (List.all_eq_true.mp List.all_takeWhile c hc)
    · exact hword c hc
  · rw [List.append_assoc, ← h, List.takeWhile_append_dropWhile]

/-- The digits of an exponent that has a sign. -/
def IsSigned (tail : List Char) : Prop :=
  ∃ sign digits, tail = sign :: digits ∧ (sign = '+' ∨ sign = '-') ∧ digits ≠ [] ∧
    ∀ c ∈ digits, c.isDigit = true

theorem exists_of_isExponent {cs : List Char} (h : isExponent cs = true) :
    ∃ word tail, (∀ c ∈ word, InNumber c) ∧ cs = word ++ tail ∧ (tail = [] ∨ IsSigned tail) := by
  cases cs with
  | nil => exact ⟨[], [], by simp, rfl, Or.inl rfl⟩
  | cons e cs =>
      simp only [isExponent, Bool.and_eq_true, Bool.or_eq_true, beq_iff_eq, Bool.not_eq_true',
        List.isEmpty_eq_false_iff] at h
      obtain ⟨⟨he, hne⟩, hdigits⟩ := h
      have hword : InNumber e := by
        rcases he with rfl | rfl <;> exact Or.inl rfl
      split at hdigits
      · next digits =>
        exact ⟨[e], '+' :: digits, by simpa using hword, rfl,
          Or.inr ⟨'+', digits, rfl, Or.inl rfl, hne, List.all_eq_true.mp hdigits⟩⟩
      · next digits =>
        exact ⟨[e], '-' :: digits, by simpa using hword, rfl,
          Or.inr ⟨'-', digits, rfl, Or.inr rfl, hne, List.all_eq_true.mp hdigits⟩⟩
      · refine ⟨e :: cs, [], ?_, by simp, Or.inl rfl⟩
        exact List.forall_mem_cons.mpr
          ⟨hword, fun c hc => inNumber_of_isDigit (List.all_eq_true.mp hdigits c hc)⟩

/-- A number without a sign is one word, perhaps with a signed exponent behind it. -/
theorem exists_of_unsigned
    {cs : List Char}
    (h : isExponent
      (match cs.dropWhile Template.isDigit with
      | '.' :: fraction => fraction.dropWhile Template.isDigit
      | rest => rest) = true) :
    ∃ word tail, (∀ d ∈ word, InNumber d) ∧ cs = word ++ tail ∧ (tail = [] ∨ IsSigned tail) := by
  obtain ⟨word, tail, hword, hrest, htail⟩ := exists_of_isExponent h
  split at hrest
  · next fraction hpoint =>
    obtain ⟨inside, hinside, hfraction⟩ := forall_mem_dropWhile hword hrest
    have hpointed : ∀ d ∈ '.' :: inside, InNumber d :=
      List.forall_mem_cons.mpr ⟨Or.inr rfl, hinside⟩
    rw [hfraction] at hpoint
    obtain ⟨more, hmore, hcs⟩ := forall_mem_dropWhile hpointed hpoint
    exact ⟨more, tail, hmore, hcs, htail⟩
  · obtain ⟨more, hmore, hcs⟩ := forall_mem_dropWhile hword hrest
    exact ⟨more, tail, hmore, hcs, htail⟩

/-- A numeral is such a number, perhaps with a sign in front of it. -/
theorem exists_of_isNumber {cs : List Char} (h : isNumber cs = true) :
    ∃ lead c word tail, cs = lead ++ c :: (word ++ tail) ∧ (lead = [] ∨ lead = ['-']) ∧
      c.isDigit = true ∧ (∀ d ∈ word, InNumber d) ∧ (tail = [] ∨ IsSigned tail) := by
  obtain ⟨lead, hlead, hcs⟩ :
      ∃ lead, (lead = [] ∨ lead = ['-']) ∧ cs = lead ++ dropLeading '-' cs := by
    cases cs with
    | nil => exact ⟨[], Or.inl rfl, rfl⟩
    | cons c cs =>
        by_cases hc : c = '-'
        · exact ⟨['-'], Or.inr rfl, by simp [dropLeading, hc]⟩
        · exact ⟨[], Or.inl rfl, by simp [dropLeading, hc]⟩
  simp only [isNumber, Bool.and_eq_true] at h
  obtain ⟨hhead, hrest⟩ := h
  generalize dropLeading '-' cs = digits at hcs hhead hrest
  cases digits with
  | nil => cases hhead
  | cons c digits =>
      have hc : Template.isDigit c = true := hhead
      rw [List.dropWhile_cons_of_pos hc] at hrest
      obtain ⟨word, tail, hword, hdigits, htail⟩ := exists_of_unsigned hrest
      exact ⟨lead, c, word, tail, by rw [hcs, hdigits], hlead, hc, hword, htail⟩

theorem reads_numeral (numeral : Numeral) : ReadsWhole numeral.text := by
  obtain ⟨lead, c, word, tail, htext, hlead, hc, hword, htail⟩ :=
    exists_of_isNumber numeral.isNumber_text
  have hbody : ReadsWhole (String.ofList (c :: (word ++ tail))) := by
    have hnumber := reads_number hc hword
    rcases htail with rfl | ⟨sign, digits, rfl, hsign, hne, hdigits⟩
    · rwa [List.append_nil]
    · have hmark : Reads (String.ofList [sign]) 0 0 true true := by
        rcases hsign with rfl | rfl
        · exact Phrase.plus.reads
        · exact Phrase.minus.reads
      have hjoin : String.ofList (c :: (word ++ sign :: digits)) =
          String.ofList (c :: word) ++ String.ofList [sign] ++ String.ofList digits := by
        simp only [← String.ofList_append, List.cons_append, List.append_assoc, List.nil_append]
      rw [hjoin]
      exact (hnumber.append hmark rfl).append (reads_digits hne hdigits) rfl
  rw [← numeral.text.ofList_toList, htext]
  rcases hlead with rfl | rfl
  · exact hbody
  · rw [String.ofList_append]
    exact (Phrase.minus.reads.append hbody rfl).weaken

theorem reads_literalText (value : Literal) : ReadsWhole (literalText value) := by
  cases value with
  | text value => exact (settles_quoted value).weaken
  | number numeral => exact reads_numeral numeral
  | bool value =>
      cases value with
      | true => exact Phrase.trueLiteral.reads
      | false => exact Phrase.falseLiteral.reads
  | null => exact Phrase.nullLiteral.reads
  | undefined => exact Phrase.undefinedLiteral.reads

theorem Root.reads_code (root : Root) : ReadsWhole root.code := by
  cases root with
  | context => exact Phrase.contextValue.reads
  | data => exact Phrase.dataValue.reads
  | parent depth =>
      exact (Phrase.depths.reads.around (reads_toString depth) Phrase.closeBracket.reads).weaken
  | blockParam level index =>
      have hlevel := Phrase.blockParams.reads.around (reads_toString level) Phrase.innerBrackets.reads
      exact (hlevel.around (reads_toString index) Phrase.closeBracket.reads).weaken

theorem reads_texts (items : List String) : Reads (Json.texts items).write 0 0 true true := by
  have hitems : ReadsWhole (Json.writeItems (items.map Json.text)) := by
    induction items with
    | nil => exact settles_empty
    | cons item items ih =>
        cases items with
        | nil => exact (settles_quoted item).weaken
        | cons next items =>
            have hitem := (settles_quoted item).append Phrase.comma.reads rfl
            exact (hitem.append ih rfl).weaken
  exact Phrase.openBracket.reads.around hitems Phrase.closeBracket.reads

theorem Access.reads_code (access : Access) : ReadsWhole access.code := by
  obtain ⟨root, parts⟩ := access
  cases parts with
  | nil => exact root.reads_code
  | cons part parts =>
      have hroot := Phrase.path.reads.around root.reads_code Phrase.separator.reads
      exact (hroot.around (reads_texts (part :: parts)) Phrase.closeParenthesis.reads).weaken

/-! ## Calls -/

theorem SectionRef.reads_code (ref : SectionRef) : Reads ref.code 0 0 false true := by
  have hnumber := Phrase.section.reads.around (reads_toString ref.number) Phrase.sectionData.reads
  exact hnumber.around (reads_toString ref.params) Phrase.sectionEnd.reads

theorem reads_sectionsText (main : SectionRef) (inverse : Option SectionRef) :
    Reads (sectionsText main inverse) 0 0 true false := by
  have hstart := Phrase.mainSection.reads.around main.reads_code Phrase.inverseSection.reads
  cases inverse with
  | none => exact hstart.append Phrase.noSection.reads rfl
  | some ref => exact hstart.append ref.reads_code.weaken rfl

theorem reads_placeText (tag : Span) : Reads (placeText tag) 0 0 true true := by
  have hstart := Phrase.placeStart.reads.around (reads_toString tag.line) Phrase.placeColumn.reads
  have hbetween := hstart.around (reads_toString tag.column) Phrase.placeEnd.reads
  have hend := hbetween.around (reads_toString tag.endLine) Phrase.placeColumn.reads
  exact hend.around (reads_toString tag.endColumn) Phrase.closeBraces.reads

section

variable {hash sections : String} {front back : Bool}

/-- The sections come behind a brace, and in front of a comma. -/
theorem reads_optionsText
    (name : String) (tag : Span)
    (hhash : Reads hash 0 0 true true) (hsections : Reads sections 0 0 front back) :
    Reads (optionsText name hash sections tag) 0 0 true true := by
  have hname := Phrase.name.reads.around (settles_quoted name) Phrase.hash.reads
  have hdata := (hname.append_whole hhash rfl).around hsections Phrase.dataAndPlace.reads
  exact hdata.around (reads_placeText tag) Phrase.closeBrace.reads

end

theorem reads_helperText (name : String) : Reads (helperText name) 0 0 false true :=
  Phrase.helper.reads.around (settles_quoted name) Phrase.closeParenthesis.reads

theorem reads_callee (name : String) (known : Bool) :
    Reads
      (if known then helperText name
        else "(" ++ helperText name ++ " || container.hooks.helperMissing)")
      0 0 false true := by
  cases known with
  | true => exact reads_helperText name
  | false =>
      have hopen := Phrase.openParenthesis.reads
      exact hopen.around (reads_helperText name) Phrase.missingHelper.reads

mutual

theorem Value.reads_code : ∀ v : Value, ReadsWhole v.code
  | .literal value => reads_literalText value
  | .access access => access.reads_code
  | .call call => (call.reads_code settles_empty).weaken

/-- A call is read as its helper, its arguments and the sections that are passed to it. -/
theorem HelperCall.reads_code {sections : String} {front back : Bool}
    (hsections : Reads sections 0 0 front back) :
    ∀ call : HelperCall, Reads (call.code sections) 0 0 false true
  | { name, known, params, hash, tag } => by
      have hhash := Phrase.openBrace.reads.around (reads_hashText hash) Phrase.closeBrace.reads
      have hcall := (reads_callee name known).append Phrase.call.reads rfl
      have hparams := (reads_paramsText hcall params).append Phrase.separator.reads rfl
      exact hparams.around (reads_optionsText name tag hhash hsections) Phrase.closeParenthesis.reads

/-- Positional arguments are read behind what stands in front of them, since each has a comma before
it. -/
theorem reads_paramsText {text : String} {opened : Nat} (h : Reads text 0 opened false false) :
    ∀ vs : List Value, Reads (text ++ paramsText vs) 0 opened false false
  | [] => by rwa [paramsText, String.append_empty]
  | v :: vs => by
      have hvalue := (h.append_whole Phrase.comma.reads rfl).append_whole v.reads_code rfl
      have hjoin : text ++ paramsText (v :: vs) = text ++ "," ++ v.code ++ paramsText vs := by
        simp only [paramsText, String.append_assoc]
      rw [hjoin]
      exact reads_paramsText hvalue vs

theorem reads_hashText : ∀ hash : List (String × Value), ReadsWhole (hashText hash)
  | [] => settles_empty
  | [(key, v)] =>
      (((settles_quoted key).append Phrase.colon.reads rfl).append v.reads_code rfl).weaken
  | (key, v) :: next :: hash => by
      have hkey := (settles_quoted key).append Phrase.colon.reads rfl
      have hfirst := hkey.around v.reads_code Phrase.comma.reads
      exact (hfirst.append (reads_hashText (next :: hash)) rfl).weaken

end

/-! ## Lines -/

theorem Shown.reads_code (shown : Shown) : ReadsWhole shown.code := by
  cases shown with
  | value v => exact v.reads_code
  | lambda access =>
      exact (Phrase.lambda.reads.around access.reads_code Phrase.lambdaEnd.reads).weaken
  | helperOrField name access tag =>
      have hoptions := reads_optionsText name tag Phrase.noHash.reads settles_empty
      have hname := Phrase.fieldTest.reads.around (reads_helperText name) Phrase.alternative.reads
      have hfield := hname.around access.reads_code Phrase.fieldCall.reads
      exact (hfield.around hoptions Phrase.fieldEnd.reads).weaken

section

variable {options sections : String} {front back : Bool}

theorem reads_valueBlockText (access : Access) (hoptions : Reads options 0 0 true true) :
    ReadsWhole (valueBlockText access options) := by
  have hvalue := Phrase.valueBlock.reads.around access.reads_code Phrase.separator.reads
  exact (hvalue.around hoptions Phrase.closeParenthesis.reads).weaken

theorem Opening.reads_code (opening : Opening) (hsections : Reads sections 0 0 front back) :
    ReadsWhole (opening.code sections) := by
  cases opening with
  | helper call => exact (call.reads_code hsections).weaken
  | value access name tag =>
      exact reads_valueBlockText access (reads_optionsText name tag Phrase.noHash.reads hsections)
  | helperOrValue called access name tag =>
      have hoptions := reads_optionsText name tag Phrase.noHash.reads hsections
      have hname := Phrase.blockTest.reads.around (reads_helperText called) Phrase.blockCall.reads
      have hfirst := hname.around hoptions Phrase.spacedColon.reads
      have hsecond := reads_valueBlockText access hoptions
      exact (hfirst.around hsecond Phrase.closeParenthesis.reads).weaken

end

theorem reads_inclusionHashText
    {text : String} {opened : Nat} (h : Reads text 0 opened false true)
    (hash : List (String × Value)) :
    Reads (text ++ inclusionHashText hash) 0 opened false true := by
  cases hash with
  | nil =>
      have hnone : inclusionHashText [] = "" := rfl
      rwa [hnone, String.append_empty]
  | cons field hash =>
      have hfields := reads_hashText (field :: hash)
      exact h.append_whole (Phrase.inclusionHash.reads.around hfields Phrase.closeBrace.reads) rfl

theorem reads_context (context : Option Value) :
    ReadsWhole ((context.map Value.code).getD "depth0") := by
  cases context with
  | none => exact Phrase.contextValue.reads
  | some v => exact v.reads_code

theorem reads_inclusionText
    (name : String) (context : Option Value) (hash : List (String × Value)) :
    ReadsWhole (inclusionText name context hash) := by
  have hvalue := Phrase.partialValue.reads.around (settles_quoted name) Phrase.closeParenthesis.reads
  have hstart := (Phrase.inclusion.reads.append_whole hvalue rfl).append_whole Phrase.comma.reads rfl
  have hcontext := hstart.around (reads_context context) Phrase.inclusionName.reads
  have hhash := reads_inclusionHashText (hcontext.append_whole (settles_quoted name) rfl) hash
  have hdata := hhash.append_whole Phrase.inclusionData.reads rfl
  exact (hdata.append Phrase.inclusionEnd.reads rfl).weaken

theorem reads_orEmpty {code : String} (h : ReadsWhole code) : ReadsWhole (orEmpty code) :=
  (Phrase.stackStart.reads.around h Phrase.stackEnd.reads).weaken

namespace Line

theorem reads_code (line : Line SectionRef) : ReadsWhole line.code := by
  cases line with
  | text s => exact (settles_quoted s).weaken
  | mustache escaped shown tag =>
      cases escaped with
      | true =>
          exact (Phrase.escape.reads.around shown.reads_code Phrase.closeParenthesis.reads).weaken
      | false => exact reads_orEmpty shown.reads_code
  | block opening main inverse tag =>
      exact reads_orEmpty (opening.reads_code (reads_sectionsText main inverse))
  | inclusion name context hash tag => exact reads_orEmpty (reads_inclusionText name context hash)

theorem reads_statement (line : Line SectionRef) : Reads line.statement 0 0 false true :=
  Phrase.statementStart.reads.around line.reads_code Phrase.statementEnd.reads

end Line

/-- Statements are read one after the other, each on a line of its own. -/
theorem reads_lines (lines : List (Line SectionRef)) :
    ReadsWhole (linesText (lines.map ("  " ++ ·.statement))) := by
  induction lines with
  | nil => exact settles_empty
  | cons line lines ih =>
      rw [List.map_cons, linesText_cons]
      have hline := Phrase.indent.reads.around line.reads_statement Phrase.newline.reads
      exact (hline.append ih rfl).weaken

/-! ## Functions and templates -/

/-- What the code of a template may take from outside. -/
def outerNames : List String := ["Object", "undefined"]

/-- The brackets around the functions of a template: those of the object, and those of the call
around it. -/
def templateLevels : List Level := [.plain, .plain, .body []]

/-- The names of a function up to the reader of fields, as they are declared one after the other. -/
def declaredNames : List String :=
  ["lookupProperty", "buffer", "alias1", "stack1", "depths", "blockParams", "data", "partials",
    "helpers", "depth0", "container"]

/-- The body of a function behind its declarations. -/
def bodyLevel : Level :=
  .body ("lookupPath" :: declaredNames)

theorem calm_bodyLevel : Calm ("undefined" :: functionNames) ["undefined"]
    (bodyLevel :: templateLevels) where
  idle := ⟨_, _, rfl, rfl, rfl, rfl⟩
  known := by
    simp [functionNames, knows, bodyLevel, declaredNames, Level.body]

/-- The texts that a template is written with around the statements of its functions.  With each go
the brackets that are open in front of it and behind it, the names that it takes from outside, and
whether it certainly starts and ends outside of words. -/
inductive TemplateText : String → List Level → List Level → List String → Bool → Bool → Prop where
  | heading : TemplateText Layout.heading [.plain, .body []] templateLevels [] true true
  | declarations :
      TemplateText (signature ++ "\n" ++ (variablesLine ++ "\n") ++ (lookupPropertyLine ++ "\n"))
        templateLevels (.body declaredNames :: templateLevels) outerNames false true
  | lookupPath :
      TemplateText (lookupPathLine ++ "\n") (.body declaredNames :: templateLevels)
        (bodyLevel :: templateLevels) [] true true
  | strictLookupPath :
      TemplateText (strictLookupPathLine ++ "\n") (.body declaredNames :: templateLevels)
        (bodyLevel :: templateLevels) [] true true
  | closing : TemplateText closingLines (bodyLevel :: templateLevels) templateLevels [] true true
  | comma : TemplateText "," templateLevels templateLevels [] true true
  | colon : TemplateText ":" templateLevels templateLevels [] true true
  | useData : TemplateText ",\"useData\":true" templateLevels templateLevels [] true false
  | useDepths : TemplateText ",\"useDepths\":true" templateLevels templateLevels [] true false
  | useBlockParams :
      TemplateText ",\"useBlockParams\":true" templateLevels templateLevels [] true false
  | usePartial : TemplateText ",\"usePartial\":true" templateLevels templateLevels [] true false
  | closeBrace : TemplateText "\x7d" templateLevels [.plain, .body []] [] true true

theorem TemplateText.runs
    {text : String} {before after : List Level} {found : List String} {front back : Bool}
    (fixed : TemplateText text before after found front back) :
    Runs text before after found front back := by
  cases fixed with
  | heading =>
      have hrevision : Layout.heading = "\x7b\"compiler\":[8,\">= 4.3.0\"],\"main\":" := by
        decide +kernel
      exact hrevision ▸ .of_check rfl (by decide +kernel)
  | declarations =>
      have hvariables : variablesLine ++ "\n" = _ := ofList_append (ofList_append rfl rfl) rfl
      have hreader : lookupPropertyLine ++ "\n" = _ :=
        ofList_append (ofList_append (ofList_append rfl rfl) rfl) rfl
      exact .of_check (ofList_append (ofList_append (ofList_append rfl rfl) hvariables) hreader)
        (by decide +kernel)
  | lookupPath | strictLookupPath =>
      exact .of_check (ofList_append (ofList_append (ofList_append rfl rfl) rfl) rfl)
        (by decide +kernel)
  | _ => exact .of_check rfl (by decide +kernel)

theorem Function.runs_opening (strict : Bool) :
    Runs (Function.opening strict) templateLevels (bodyLevel :: templateLevels) outerNames false
      true := by
  have htext : Function.opening strict =
      signature ++ "\n" ++ (variablesLine ++ "\n") ++ (lookupPropertyLine ++ "\n") ++
        ((if strict then strictLookupPathLine else lookupPathLine) ++ "\n") := by
    simp [Function.opening, preamble, linesText, String.append_assoc]
  have hpath : Runs ((if strict then strictLookupPathLine else lookupPathLine) ++ "\n")
      (.body declaredNames :: templateLevels) (bodyLevel :: templateLevels) [] true true := by
    cases strict with
    | true => exact TemplateText.strictLookupPath.runs
    | false => exact TemplateText.lookupPath.runs
  rw [htext]
  exact TemplateText.declarations.runs.append hpath rfl

theorem Function.runs_code (strict : Bool) (f : Function) :
    ∃ found, (∀ name, name ∈ found ↔ name ∈ outerNames) ∧
      Runs (f.code strict) templateLevels templateLevels found false true := by
  obtain ⟨found, hfound, hlines⟩ := reads_lines f.lines _ calm_bodyLevel
  have hopened := (Function.runs_opening strict).append hlines rfl
  refine ⟨outerNames ++ found ++ [], ?_, hopened.append TemplateText.closing.runs rfl⟩
  intro name
  rw [List.append_nil, List.mem_append, or_iff_left_iff_imp]
  intro hname
  rw [List.mem_singleton.mp (hfound name hname)]
  decide

section

variable {text : String} {before : List Level} {found : List String} {front : Bool}

/-- Behind what they follow, the functions of the sections take names from outside as the main one
does. -/
theorem runs_childrenText
    (strict : Bool) (number : Nat) (fs : List Function)
    (h : Runs text before templateLevels found front true) :
    ∃ others, (∀ name ∈ others, name ∈ outerNames) ∧
      Runs (text ++ childrenText strict number fs) before templateLevels (found ++ others) front
        true := by
  induction fs generalizing text found number with
  | nil => exact ⟨[], by simp, by simpa [childrenText] using h⟩
  | cons f fs ih =>
      obtain ⟨inside, hinside, hf⟩ := f.runs_code strict
      have hkey := (runs_quoted (toString number) templateLevels).append TemplateText.colon.runs rfl
      have hfield := ((h.append TemplateText.comma.runs rfl).append hkey rfl).append hf rfl
      simp only [List.append_nil, ← String.append_assoc] at hfield
      obtain ⟨others, hothers, hfs⟩ := ih (number + 1) hfield
      have htext : text ++ childrenText strict number (f :: fs) =
          text ++ "," ++ quoted (toString number) ++ ":" ++ f.code strict ++
            childrenText strict (number + 1) fs := by
        simp only [childrenText_cons, String.append_assoc]
      refine ⟨inside ++ others, ?_, ?_⟩
      · intro name hname
        exact (List.mem_append.mp hname).elim (hinside name).mp (hothers name)
      · rw [htext]
        simpa using hfs

theorem runs_flag
    {flag : String} (needed : Bool) (hflag : Runs flag templateLevels templateLevels [] true false)
    (h : Runs text before templateLevels found front false) :
    Runs (text ++ if needed then flag else "") before templateLevels found front false := by
  cases needed with
  | true => simpa using h.append hflag rfl
  | false => simpa using h

end

/-- The object of a template takes from outside what its functions do. -/
theorem Layout.runs_code (strict : Bool) (layout : Layout) :
    ∃ found, (∀ name, name ∈ found ↔ name ∈ outerNames) ∧
      Runs (layout.code strict) [.plain, .body []] [.plain, .body []] found true true := by
  obtain ⟨found, hfound, hmain⟩ := layout.main.runs_code strict
  obtain ⟨others, hothers, hchildren⟩ :=
    runs_childrenText strict 1 layout.children (TemplateText.heading.runs.append hmain rfl)
  have hdata := hchildren.append TemplateText.useData.runs rfl
  have hdepths := runs_flag layout.usesDepths TemplateText.useDepths.runs hdata
  have hparams := runs_flag layout.usesBlockParams TemplateText.useBlockParams.runs hdepths
  have hpartial := runs_flag layout.usesPartials TemplateText.usePartial.runs hparams
  refine ⟨found ++ others, ?_, ?_⟩
  · intro name
    rw [List.mem_append, hfound, or_iff_left_iff_imp]
    exact hothers name
  · have htext : layout.code strict =
        Layout.heading ++ layout.main.code strict ++ childrenText strict 1 layout.children ++
          ",\"useData\":true" ++ (if layout.usesDepths then ",\"useDepths\":true" else "") ++
          (if layout.usesBlockParams then ",\"useBlockParams\":true" else "") ++
          (if layout.usesPartials then ",\"usePartial\":true" else "") ++ "\x7d" := by
      unfold Layout.code Layout.flagsText
      simp only [String.append_assoc]
    have hcode := hpartial.append TemplateText.closeBrace.runs rfl
    rw [List.append_nil, List.append_nil, List.nil_append] at hcode
    rw [htext]
    exact hcode

end Spec
end TemplateModules
