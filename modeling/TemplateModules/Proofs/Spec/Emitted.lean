import TemplateModules.Proofs.Spec.Emission

/-!
# What the writers of code emit

Values, calls and lines have lists of mentions, which are read off their structure.  For each
function that writes them there is a lemma: the text is code that closes its own brackets, and it
mentions just what the list says.  The last one is about a whole template.
-/

namespace TemplateModules
namespace Spec

open Script Template Text

/-! ## Mentions by structure -/

namespace Root

/-- The mentions of the start of an access. -/
def mentions : Root → List Mention
  | context => []
  | parent depth => [.outer depth]
  | data => []
  | blockParam level index => [.blockParam level index]

end Root

mutual

def Value.mentions : Value → List Mention
  | .literal _ => []
  | .access access => access.root.mentions
  | .call call => call.mentions

def HelperCall.mentions : HelperCall → List Mention
  | { name, params, hash, .. } => .helper name :: (valuesMentions params ++ hashMentions hash)

/-- The mentions of several values. -/
def valuesMentions : List Value → List Mention
  | [] => []
  | v :: vs => v.mentions ++ valuesMentions vs

/-- The mentions of several values with names. -/
def hashMentions : List (String × Value) → List Mention
  | [] => []
  | (_, v) :: hash => v.mentions ++ hashMentions hash

end

/-- The mentions of what a mustache shows. -/
def Shown.mentions : Shown → List Mention
  | value v => v.mentions
  | lambda access => access.root.mentions
  | helperOrField name access _ => .helper name :: access.root.mentions

/-- The mentions of the head of a block. -/
def Opening.mentions : Opening → List Mention
  | helper call => call.mentions
  | value access _ _ => access.root.mentions
  | helperOrValue called access _ _ => .helper called :: access.root.mentions

/-- The mentions of a value that may be absent. -/
def contextMentions : Option Value → List Mention
  | none => []
  | some v => v.mentions

namespace Line

/-- The mentions of a line itself, without those of its sections. -/
def mentions {σ : Type} : Line σ → List Mention
  | text _ => []
  | mustache _ shown _ => shown.mentions
  | block opening _ _ _ => opening.mentions
  | inclusion name context hash _ =>
      .invocation :: .inclusion name :: (contextMentions context ++ hashMentions hash)

/-- The sections that a line refers to. -/
def sections {σ : Type} : Line σ → List σ
  | block _ main inverse _ => main :: inverse.toList
  | _ => []

end Line

def Function.mentions (f : Function) : List Mention :=
  f.lines.flatMap fun line => line.mentions ++ line.sections.map .child

/-- The mentions of all functions of a template. -/
def Layout.mentions (layout : Layout) : List Mention :=
  layout.functions.flatMap Function.mentions

/-! ## Values -/

theorem emits_literalText (value : Literal) : EmitsWhole (literalText value) [] := by
  cases value with
  | text value => exact emitsWhole_quoted value
  | number numeral => exact emitsWhole_numeral numeral
  | bool value =>
      cases value with
      | true => exact Fragment.trueLiteral.emits
      | false => exact Fragment.falseLiteral.emits
  | null => exact Fragment.nullLiteral.emits
  | undefined => exact Fragment.undefinedLiteral.emits

theorem Root.emits_code (root : Root) : EmitsWhole root.code root.mentions := by
  cases root with
  | context => exact Fragment.context.emits
  | parent depth => exact Mention.emits (.outer depth) (by simp [Mention.kind])
  | data => exact Fragment.data.emits
  | blockParam level index =>
      exact Mention.emits (.blockParam level index) (by simp [Mention.kind])

theorem emits_texts (items : List String) : EmitsWhole (Json.texts items).write [] := by
  have hopen := Fragment.openBracket.emits
  have hclose := Fragment.closeBracket.emits
  have hcomma := Fragment.comma.emits
  have hitems : EmitsWhole (Json.writeItems (items.map Json.text)) [] := by
    induction items with
    | nil => exact emitsWhole_empty
    | cons item items ih =>
        cases items with
        | nil => exact emitsWhole_quoted item
        | cons next items => exact ((emitsWhole_quoted item).append hcomma).append ih
  exact (hopen.append_whole hitems).append_silent hclose

/-- An access mentions what its root does. -/
theorem Access.emits_code (access : Access) : EmitsWhole access.code access.root.mentions := by
  have hopen := Fragment.path.emits
  have hcomma := Fragment.spacedComma.emits.frame [')']
  have hclose := Fragment.closeParen.emits
  obtain ⟨root, parts⟩ := access
  cases parts with
  | nil => exact root.emits_code
  | cons part parts =>
      have hroot := (hopen.append_whole root.emits_code).append_silent hcomma
      exact (hroot.append_silent ((emits_texts (part :: parts)).frame [')'])).append_silent hclose

/-! ## Calls -/

theorem SectionRef.emits_code (ref : SectionRef) : EmitsWhole ref.code [.child ref] :=
  Mention.emits (.child ref) (by simp [Mention.kind])

theorem emits_sectionsText (main : SectionRef) (inverse : Option SectionRef) :
    EmitsWhole (sectionsText main inverse) ((main :: inverse.toList).map .child) := by
  have hmain := Fragment.mainSection.emits
  have hinverse := Fragment.inverseSection.emits
  have hnone := Fragment.noSection.emits
  have hstart := (hmain.append main.emits_code).append_silent hinverse
  cases inverse with
  | none => exact hstart.append hnone
  | some ref => exact hstart.append ref.emits_code

theorem emits_placeText (tag : Span) : EmitsWhole (placeText tag) [] := by
  have hopen := Fragment.placeStart.emits
  have hcolumn := Fragment.placeColumn.emits
  have hbetween := Fragment.placeEnd.emits.frame ['\x7d']
  have hclose := Fragment.closeBraces.emits
  have hstart := ((hopen.append_whole (emitsWhole_toString tag.line)).append_whole hcolumn)
    |>.append_whole (emitsWhole_toString tag.column)
  have hend := ((hstart.append hbetween).append_whole (emitsWhole_toString tag.endLine))
    |>.append_whole hcolumn |>.append_whole (emitsWhole_toString tag.endColumn)
  exact hend.append hclose

section

variable {hash sections : String} {inHash inSections : List Mention}

theorem emits_optionsText
    (name : String) (tag : Span)
    (hhash : EmitsWhole hash inHash) (hsections : EmitsWhole sections inSections) :
    EmitsWhole (optionsText name hash sections tag) (inHash ++ inSections) := by
  have hopen := Fragment.name.emits
  have hbetween := Fragment.hash.emits
  have hdata := Fragment.dataAndPlace.emits
  have hclose := Fragment.closeBrace.emits
  have hname := (hopen.append_whole (emitsWhole_quoted name)).append_whole hbetween
  have hsecond := (hname.append_whole hhash).append_whole hsections
  have hlast := (hsecond.append_whole hdata).append_whole (emits_placeText tag)
  exact (hlast.append hclose).congr (by simp)

end

theorem emits_helperText (name : String) : EmitsWhole (helperText name) [.helper name] :=
  Mention.emits (.helper name) (by simp [Mention.kind])

theorem emits_callee (name : String) (known : Bool) :
    EmitsWhole
      (if known then helperText name
        else "(" ++ helperText name ++ " || container.hooks.helperMissing)")
      [.helper name] := by
  have hopen := Fragment.openParen.emits
  have hclose := Fragment.missingHelper.emits
  cases known with
  | true => exact emits_helperText name
  | false => exact (hopen.append_whole (emits_helperText name)).append_silent hclose

mutual

theorem Value.emits_code : ∀ v : Value, EmitsWhole v.code v.mentions
  | .literal value => emits_literalText value
  | .access access => access.emits_code
  | .call call => (call.emits_code emitsWhole_empty).congr (by simp [Value.mentions])

/-- A call mentions its helper, what its arguments mention, and the sections passed to it. -/
theorem HelperCall.emits_code {sections : String} {found : List Mention}
    (hsections : EmitsWhole sections found) :
    ∀ call : HelperCall, EmitsWhole (call.code sections) (call.mentions ++ found)
  | { name, known, params, hash, tag } => by
      have hcall := Fragment.call.emits
      have hcomma := Fragment.spacedComma.emits
      have hopen := Fragment.openBrace.emits
      have hclose := Fragment.closeBrace.emits
      have hend := Fragment.closeParen.emits
      have hhash := (hopen.append_whole (emits_hashText hash)).append hclose
      have hparams := ((emits_callee name known).append hcall).append_whole (emits_paramsText params)
      have hargs := (hparams.append_whole hcomma).append_whole
        (emits_optionsText name tag hhash hsections)
      exact (hargs.append hend).congr (by simp [HelperCall.mentions])

theorem emits_paramsText : ∀ vs : List Value, EmitsWhole (paramsText vs) (valuesMentions vs)
  | [] => emitsWhole_empty
  | v :: vs => by
      have hcomma := Fragment.comma.emits
      exact (hcomma.append v.emits_code).append (emits_paramsText vs)

theorem emits_hashText :
    ∀ hash : List (String × Value), EmitsWhole (hashText hash) (hashMentions hash)
  | [] => emitsWhole_empty
  | [(key, v)] => by
      have hcolon := Fragment.colon.emits
      exact (((emitsWhole_quoted key).append hcolon).append v.emits_code).congr
        (by simp [hashMentions])
  | (key, v) :: next :: hash => by
      have hcolon := Fragment.colon.emits
      have hcomma := Fragment.comma.emits
      have hfirst := ((emitsWhole_quoted key).append hcolon).append v.emits_code
      exact (hfirst.append_silent hcomma).append (emits_hashText (next :: hash))

end

/-! ## Lines -/

theorem Shown.emits_code (shown : Shown) : EmitsWhole shown.code shown.mentions := by
  cases shown with
  | value v => exact v.emits_code
  | lambda access =>
      have hopen := Fragment.lambda.emits
      have hclose := Fragment.lambdaEnd.emits
      exact (hopen.append_whole access.emits_code).append_silent hclose
  | helperOrField name access tag =>
      have htest := Fragment.fieldTest.emits
      have halternative := Fragment.alternative.emits
      have hcall := Fragment.fieldCall.emits.frame [')']
      have hend := Fragment.fieldEnd.emits
      have hhash := Fragment.emptyObject.emits
      have hname := (htest.append_whole (emits_helperText name)).append_whole halternative
      have hfield := (hname.append_whole access.emits_code).append hcall
      have hargs := hfield.append_whole (emits_optionsText name tag hhash emitsWhole_empty)
      exact (hargs.append hend).congr (by simp [Shown.mentions])

section

variable {options sections : String} {found : List Mention}

theorem emits_valueBlockText (access : Access) (hoptions : EmitsWhole options found) :
    EmitsWhole (valueBlockText access options) (access.root.mentions ++ found) := by
  have hopen := Fragment.valueBlock.emits
  have hcomma := Fragment.spacedComma.emits
  have hclose := Fragment.closeParen.emits
  have hvalue := (hopen.append_whole access.emits_code).append_whole hcomma
  exact ((hvalue.append_whole hoptions).append hclose).congr (by simp)

/-- A block mentions what its head does, and its sections. -/
theorem Opening.emits_code (opening : Opening) (hsections : EmitsWhole sections found) :
    EmitsWhole (opening.code sections) (opening.mentions ++ found) := by
  have hhash := Fragment.emptyObject.emits
  cases opening with
  | helper call => exact call.emits_code hsections
  | value access name tag =>
      exact emits_valueBlockText access (emits_optionsText name tag hhash hsections)
  | helperOrValue called access name tag =>
      have htest := Fragment.blockTest.emits
      have hcall := Fragment.blockCall.emits.frame [')']
      have hbetween := Fragment.spacedColon.emits.frame [')']
      have hclose := Fragment.closeParen.emits
      have hoptions := emits_optionsText name tag hhash hsections
      have hname := (htest.append_whole (emits_helperText called)).append hcall
      have hfirst := (hname.append_whole hoptions).append hbetween
      have hsecond := hfirst.append_whole (emits_valueBlockText access hoptions)
      -- The options are written twice, so the sections are mentioned twice.
      exact (hsecond.append hclose).congr (by simp [Opening.mentions]; tauto)

end

theorem emits_inclusionHashText (hash : List (String × Value)) :
    EmitsWhole (inclusionHashText hash) (hashMentions hash) := by
  have hopen := Fragment.inclusionHash.emits
  have hclose := Fragment.closeBrace.emits
  cases hash with
  | nil => exact emitsWhole_empty
  | cons field hash =>
      exact (hopen.append_whole (emits_hashText (field :: hash))).append_silent hclose

theorem emits_context (context : Option Value) :
    EmitsWhole ((context.map Value.code).getD "depth0") (contextMentions context) := by
  cases context with
  | none => exact Fragment.context.emits
  | some v => exact v.emits_code

/-- The inclusion of a partial mentions the call, the partial, and what its arguments mention. -/
theorem emits_inclusionText
    (name : String) (context : Option Value) (hash : List (String × Value)) :
    EmitsWhole (inclusionText name context hash)
      (.invocation :: .inclusion name :: (contextMentions context ++ hashMentions hash)) := by
  have hpartial : EmitsWhole (partialText name) [.inclusion name] :=
    Mention.emits (.inclusion name) (by simp [Mention.kind])
  have hcomma := Fragment.comma.emits
  have hname := Fragment.inclusionName.emits.frame [')']
  have hdata := Fragment.inclusionData.emits
  have hclose := Fragment.inclusionEnd.emits
  have hcall := (emits_invocation.append_whole hpartial).append_whole hcomma
  have hcontext := (hcall.append_whole (emits_context context)).append hname
  have hhash := (hcontext.append_whole (emitsWhole_quoted name)).append_whole
    (emits_inclusionHashText hash)
  exact ((hhash.append_whole hdata).append hclose).congr (by simp)

theorem emits_orEmpty {code : String} {found : List Mention} (h : EmitsWhole code found) :
    EmitsWhole (orEmpty code) found := by
  have hopen := Fragment.stackStart.emits
  have hclose := Fragment.stackEnd.emits
  exact (hopen.append_whole h).append_silent hclose

namespace Line

theorem emits_code (line : Line SectionRef) :
    EmitsWhole line.code (line.mentions ++ line.sections.map .child) := by
  cases line with
  | text s => exact emitsWhole_quoted s
  | mustache escaped shown tag =>
      cases escaped with
      | true =>
          have hopen := Fragment.escape.emits
          have hclose := Fragment.closeParen.emits
          exact ((hopen.append_whole shown.emits_code).append hclose)
      | false => exact (emits_orEmpty shown.emits_code).congr (by simp [mentions, sections])
  | block opening main inverse tag =>
      exact emits_orEmpty (opening.emits_code (emits_sectionsText main inverse))
  | inclusion name context hash tag =>
      exact (emits_orEmpty (emits_inclusionText name context hash)).congr
        (by simp [mentions, sections])

theorem emits_statement (line : Line SectionRef) :
    EmitsWhole line.statement (line.mentions ++ line.sections.map .child) := by
  have hstart := Fragment.statementStart.emits
  have hend := Fragment.statementEnd.emits
  exact (hstart.append line.emits_code).append_silent hend

end Line

/-! ## Functions and templates -/

theorem emits_linesText_cons
    {line : String} {lines : List String} {before between after : List Char}
    {found others : List Mention}
    (hline : Emits line before between found) (hlines : Emits (linesText lines) between after others) :
    Emits (linesText (line :: lines)) before after (found ++ others) := by
  have hnewline := Fragment.newline.emits
  rw [linesText_cons]
  exact (hline.append_silent (hnewline.frame between)).append hlines

theorem emits_variablesLine : EmitsWhole variablesLine [] := by
  have hvariables := Fragment.variables.emits
  have hbuffer := Fragment.buffer.emits
  exact hvariables.append hbuffer

theorem emits_lookupPropertyLine : EmitsWhole lookupPropertyLine [] := by
  have hreader := Fragment.propertyReader.emits
  have htest := Fragment.propertyTest.emits.frame ['\x7d']
  have hresult := Fragment.propertyResult.emits
  exact (hreader.append htest).append hresult

theorem emits_lookupPathLine (strict : Bool) :
    EmitsWhole (if strict then strictLookupPathLine else lookupPathLine) [] := by
  have hreader := Fragment.pathReader.emits
  cases strict with
  | true =>
      have hloop := Fragment.strictPathLoop.emits.frame ['\x7d']
      have hstep := Fragment.strictPathStep.emits
      exact (hreader.append hloop).append hstep
  | false =>
      have hloop := Fragment.pathLoop.emits.frame ['\x7d']
      have hstep := Fragment.pathStep.emits
      exact (hreader.append hloop).append hstep

theorem emits_preamble (strict : Bool) : EmitsWhole (linesText (preamble strict)) [] :=
  emits_linesText_cons emits_variablesLine <|
    emits_linesText_cons emits_lookupPropertyLine <|
      emits_linesText_cons (emits_lookupPathLine strict) emitsWhole_empty

namespace Function

theorem emits_opening (strict : Bool) : Emits (opening strict) [] ['\x7d'] [] := by
  have hsignature := Fragment.signature.emits
  have hnewline := Fragment.newline.emits
  exact (hsignature.append_whole hnewline).append_whole (emits_preamble strict)

theorem emits_lines (lines : List (Line SectionRef)) :
    EmitsWhole (linesText (lines.map ("  " ++ ·.statement))) (Function.mk lines).mentions := by
  have hindent := Fragment.indent.emits
  induction lines with
  | nil => exact emitsWhole_empty
  | cons line lines ih => exact emits_linesText_cons (hindent.append line.emits_statement) ih

theorem emits_code (strict : Bool) (f : Function) : EmitsWhole (f.code strict) f.mentions := by
  have hclosing := Fragment.closing.emits
  exact ((emits_opening strict).append_whole (emits_lines f.lines)).append_silent hclosing

end Function

theorem quoted_toString (n : Nat) : quoted (toString n) = "\"" ++ toString n ++ "\"" := by
  have hescaped : ∀ cs : List Char, (∀ c ∈ cs, c.isDigit = true) → escaped cs = cs := by
    intro cs hcs
    induction cs with
    | nil => rfl
    | cons c cs ih =>
        have hdigit := hcs c (by simp)
        have hc : quoteChar c = [c] := by
          apply quoteChar_of_plain
          · rintro rfl
            exact absurd hdigit (by decide)
          · rintro rfl
            exact absurd hdigit (by decide)
          · simp only [Char.isDigit, Bool.and_eq_true, decide_eq_true_eq] at hdigit
            have hle : 48 ≤ c.toNat := hdigit.1
            omega
        rw [escaped_cons, hc, ih fun d hd => hcs d (List.mem_cons_of_mem _ hd)]
        rfl
  apply String.toList_inj.mp
  rw [toList_quoted, hescaped _ fun c hc => isDigit_of_mem_toString hc]
  simp

/-- The number of a section is written as a literal. -/
theorem childrenText_cons (strict : Bool) (number : Nat) (f : Function) (fs : List Function) :
    childrenText strict number (f :: fs) =
      "," ++ quoted (toString number) ++ ":" ++ f.code strict ++
        childrenText strict (number + 1) fs := by
  have hopen : ",\"" = "," ++ "\"" := by decide
  have hclose : "\":" = "\"" ++ ":" := by decide
  simp only [quoted_toString, childrenText, hopen, hclose, String.append_assoc]

theorem emits_childrenText (strict : Bool) (number : Nat) (fs : List Function) :
    EmitsWhole (childrenText strict number fs) (fs.flatMap Function.mentions) := by
  have hcomma := Fragment.comma.emits
  have hcolon := Fragment.colon.emits
  induction fs generalizing number with
  | nil => exact emitsWhole_empty
  | cons f fs ih =>
      rw [childrenText_cons]
      have hnumber := (hcomma.append (emitsWhole_quoted (toString number))).append hcolon
      exact (hnumber.append (f.emits_code strict)).append (ih (number + 1))

namespace Layout

theorem emits_flagsText (layout : Layout) : EmitsWhole layout.flagsText [] := by
  have hflag : ∀ {flag : String} (needed : Bool), EmitsWhole flag [] →
      EmitsWhole (if needed then flag else "") [] := by
    intro flag needed h
    cases needed with
    | true => exact h
    | false => exact emitsWhole_empty
  have hdata := Fragment.useData.emits
  have hdepths := Fragment.useDepths.emits
  have hparams := Fragment.useBlockParams.emits
  have hpartial := Fragment.usePartial.emits
  exact ((hdata.append (hflag _ hdepths)).append (hflag _ hparams)).append (hflag _ hpartial)

/-- The text of a template is an object, whose inside mentions what the functions do. -/
theorem exists_body (strict : Bool) (layout : Layout) :
    ∃ body, layout.code strict = "\x7b" ++ body ++ "\x7d" ∧ EmitsWhole body layout.mentions := by
  have hopen := Fragment.headingStart.emits
  have hcomma := Fragment.comma.emits
  have hclose := Fragment.headingEnd.emits
  have hrevision := (hopen.append_whole (emitsWhole_toString compilerRevision)).append_whole hcomma
  have hheading := (hrevision.append_whole (emitsWhole_quoted revisionChanges)).append hclose
  have hmain := hheading.append (layout.main.emits_code strict)
  have hchildren := hmain.append (emits_childrenText strict 1 layout.children)
  refine ⟨_, ?_, (hchildren.append layout.emits_flagsText).congr (by simp [mentions, functions])⟩
  have hstart : "\x7b\"compiler\":[" = "\x7b" ++ "\"compiler\":[" := by decide
  simp only [code, heading, hstart, String.append_assoc]

/-- The text of a template mentions what its functions do. -/
theorem emits_code (strict : Bool) (layout : Layout) :
    EmitsWhole (layout.code strict) layout.mentions := by
  have hopen := Fragment.openBrace.emits
  have hclose := Fragment.closeBrace.emits
  obtain ⟨body, hcode, hbody⟩ := layout.exists_body strict
  rw [hcode]
  exact (hopen.append_whole hbody).append_silent hclose

end Layout
end Spec
end TemplateModules
