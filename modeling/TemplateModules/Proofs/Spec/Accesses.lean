import TemplateModules.Proofs.Spec.Plain

/-!
# The accesses of a line

The values that generated code reads are its accesses.  Those of a line are listed in the order of
its text: they stand in it one behind another, and what the text mentions of outer contexts and of
block parameters is what they read.
-/

namespace TemplateModules
namespace Spec

open Script Template Text

/-! ## Accesses by structure -/

mutual

def Value.accesses : Value → List Access
  | .literal _ => []
  | .access access => [access]
  | .call call => call.accesses

def HelperCall.accesses : HelperCall → List Access
  | { params, hash, .. } => valuesAccesses params ++ hashAccesses hash

/-- The accesses of several values. -/
def valuesAccesses : List Value → List Access
  | [] => []
  | v :: vs => v.accesses ++ valuesAccesses vs

/-- The accesses of several values with names. -/
def hashAccesses : List (String × Value) → List Access
  | [] => []
  | (_, v) :: hash => v.accesses ++ hashAccesses hash

end

/-- The accesses of what a mustache shows. -/
def Shown.accesses : Shown → List Access
  | value v => v.accesses
  | lambda access => [access]
  | helperOrField _ access _ => [access]

/-- The accesses of the head of a block and of its arguments. -/
def Opening.accesses : Opening → List Access
  | helper call => call.accesses
  | value access _ _ => [access]
  | helperOrValue _ access _ _ => [access]

/-- The accesses of a value that may be absent. -/
def contextAccesses : Option Value → List Access
  | none => []
  | some v => v.accesses

/-- The accesses of a line itself, without those of its sections. -/
def Line.accesses {σ : Type} : Line σ → List Access
  | text _ => []
  | mustache _ shown _ => shown.accesses
  | block opening _ _ _ => opening.accesses
  | inclusion _ context hash _ => contextAccesses context ++ hashAccesses hash

/-! ## Accesses in a text -/

/-- Scripts stand in a longer one, one behind another. -/
inductive InTurn : List (List Mark) → List Mark → Prop
  | nil (rest : List Mark) : InTurn [] rest
  | cons {part rest : List Mark} {parts : List (List Mark)}
      (before : List Mark) (hparts : InTurn parts rest) :
      InTurn (part :: parts) (before ++ (part ++ rest))

namespace InTurn

variable {ms ns : List Mark} {parts others : List (List Mark)}

theorem behind (h : InTurn parts ns) (ms : List Mark) : InTurn parts (ms ++ ns) := by
  cases h with
  | nil rest => exact .nil _
  | cons before hparts =>
      rw [← List.append_assoc]
      exact .cons (ms ++ before) hparts

theorem append (hms : InTurn parts ms) (hns : InTurn others ns) :
    InTurn (parts ++ others) (ms ++ ns) := by
  induction hms with
  | nil rest => exact hns.behind rest
  | cons before hparts ih =>
      rw [List.append_assoc, List.append_assoc, List.cons_append]
      exact .cons before ih

end InTurn

/-- What a scan meets where an access starts. -/
def Root.marks : Root → List Mark
  | context => chars "depth0".toList
  | parent depth => (Mention.outer depth).marks
  | data => chars "data".toList
  | blockParam level index => (Mention.blockParam level index).marks

/-- The names of fields as string literals, with commas between them. -/
def fieldMarks : List String → List Mark
  | [] => []
  | [field] => [.literal (escaped field.toList)]
  | field :: fields => .literal (escaped field.toList) :: .char ',' :: fieldMarks fields

/-- What a scan meets in the text of an access: the start alone, or a call that goes down from it
through fields. -/
def Access.marks : Access → List Mark
  | { root, parts := [] } => root.marks
  | { root, parts } =>
      chars "lookupPath(".toList ++ root.marks ++ chars ", [".toList ++ fieldMarks parts ++
        chars "])".toList

theorem Mention.scan_text (m : Mention) (hkind : m.kind ≠ .invocation) :
    scan m.text.toList = some m.marks := by
  obtain ⟨pieces, hpieces, hmarks⟩ := m.traces hkind
  rw [hpieces.scan_eq, hmarks]

theorem Root.scan_code (root : Root) : scan root.code.toList = some root.marks := by
  cases root with
  | context => exact scan_chars (by decide)
  | parent depth => exact (Mention.outer depth).scan_text nofun
  | data => exact scan_chars (by decide)
  | blockParam level index => exact (Mention.blockParam level index).scan_text nofun

theorem scan_writeItems (fields : List String) :
    scan (Json.writeItems (fields.map Json.text)).toList = some (fieldMarks fields) := by
  induction fields with
  | nil => rfl
  | cons field fields ih =>
      cases fields with
      | nil => exact scan_quoted field
      | cons next fields =>
          have hcomma : scan ",".toList = some [.char ','] := scan_chars (by decide)
          exact scan_text_append (scan_text_append (scan_quoted field) hcomma) ih

theorem Access.scan_code (access : Access) : scan access.code.toList = some access.marks := by
  obtain ⟨root, parts⟩ := access
  cases parts with
  | nil => exact root.scan_code
  | cons part parts =>
      have hcall : scan "lookupPath(".toList = some (chars _) := scan_chars (by decide)
      have hcomma : scan ", ".toList = some (chars _) := scan_chars (by decide)
      have hopen : scan "[".toList = some (chars _) := scan_chars (by decide)
      have hclose : scan "]".toList = some (chars _) := scan_chars (by decide)
      have hend : scan ")".toList = some (chars _) := scan_chars (by decide)
      have hitems := scan_text_append hopen (scan_writeItems (part :: parts))
      have hfields := scan_text_append hitems hclose
      have hstart := scan_text_append (scan_text_append hcall root.scan_code) hcomma
      refine (scan_text_append (scan_text_append hstart hfields) hend).trans (congrArg some ?_)
      simp [Access.marks]

/-- A text is plain, and accesses stand in it one behind another. -/
def Carries (text : String) (accesses : List Access) : Prop :=
  ∃ ms, scan text.toList = some ms ∧ Mark.char 'x' ∉ ms ∧ InTurn (accesses.map Access.marks) ms

theorem Plain.carries_nil {text : String} (h : Plain text) : Carries text [] := by
  obtain ⟨ms, hms, hletter⟩ := h
  exact ⟨ms, hms, hletter, .nil ms⟩

namespace Carries

variable {a b : String} {as bs : List Access}

theorem plain (h : Carries a as) : Plain a := by
  obtain ⟨ms, hms, hletter, -⟩ := h
  exact ⟨ms, hms, hletter⟩

protected theorem append (ha : Carries a as) (hb : Carries b bs) : Carries (a ++ b) (as ++ bs) := by
  obtain ⟨ms, hms, hfirst, has⟩ := ha
  obtain ⟨ns, hns, hsecond, hbs⟩ := hb
  refine ⟨ms ++ ns, scan_text_append hms hns, by simp [hfirst, hsecond], ?_⟩
  rw [List.map_append]
  exact has.append hbs

/-- What comes behind a text does not matter. -/
theorem before (ha : Carries a as) (hb : Plain b) : Carries (a ++ b) as := by
  have hall := ha.append hb.carries_nil
  rwa [List.append_nil] at hall

/-- What stands in front of a text does not matter. -/
theorem behind (ha : Plain a) (hb : Carries b bs) : Carries (a ++ b) bs :=
  ha.carries_nil.append hb

end Carries

theorem Access.carries_code (access : Access) : Carries access.code [access] := by
  obtain ⟨ms, hms, hletter⟩ := access.plain_code
  have hmarks : access.marks = ms := Option.some.inj (access.scan_code.symm.trans hms)
  have hone : InTurn [access.marks] ([] ++ (access.marks ++ [])) := .cons [] (.nil [])
  refine ⟨ms, hms, hletter, ?_⟩
  simpa [hmarks] using hone

theorem carries_optionsText
    {hash sections : String} {as : List Access} (name : String) (tag : Span)
    (hhash : Carries hash as) (hsections : Plain sections) :
    Carries (optionsText name hash sections tag) as := by
  have hname := (Fragment.name.plain (by decide)).around (plain_quoted name)
    (Fragment.hash.plain (by decide))
  have hfields := (Carries.behind hname hhash).before hsections
  have hdata := hfields.before (Fragment.dataAndPlace.plain (by decide))
  exact (hdata.before (plain_placeText tag)).before (Fragment.closeBrace.plain (by decide))

/-- Without arguments there are no accesses among the options of a call. -/
theorem plain_optionsText
    {sections : String} (name : String) (tag : Span) (hsections : Plain sections) :
    Plain (optionsText name noHash sections tag) :=
  (carries_optionsText name tag (Fragment.emptyObject.plain (by decide)).carries_nil hsections).plain

mutual

theorem Value.carries_code : ∀ v : Value, Carries v.code v.accesses
  | .literal value => (plain_literalText value).carries_nil
  | .access access => access.carries_code
  | .call call => call.carries_code plain_empty

theorem HelperCall.carries_code {sections : String} (hsections : Plain sections) :
    ∀ call : HelperCall, Carries (call.code sections) call.accesses
  | { name, known, params, hash, tag } => by
      have hcall := Fragment.call.plain (by decide)
      have hcomma := Fragment.spacedComma.plain (by decide)
      have hopen := Fragment.openBrace.plain (by decide)
      have hclose := Fragment.closeBrace.plain (by decide)
      have hend := Fragment.closeParen.plain (by decide)
      have hparams := Carries.behind ((plain_callee name known).append hcall)
        (carries_paramsText params)
      have hfields := (Carries.behind hopen (carries_hashText hash)).before hclose
      have hoptions := carries_optionsText name tag hfields hsections
      exact ((hparams.before hcomma).append hoptions).before hend

theorem carries_paramsText : ∀ vs : List Value, Carries (paramsText vs) (valuesAccesses vs)
  | [] => plain_empty.carries_nil
  | v :: vs => by
      have hcomma := Fragment.comma.plain (by decide)
      exact (Carries.behind hcomma v.carries_code).append (carries_paramsText vs)

theorem carries_hashText :
    ∀ hash : List (String × Value), Carries (hashText hash) (hashAccesses hash)
  | [] => plain_empty.carries_nil
  | [(key, v)] => by
      have hcolon := Fragment.colon.plain (by decide)
      rw [hashAccesses, hashAccesses, List.append_nil]
      exact Carries.behind ((plain_quoted key).append hcolon) v.carries_code
  | (key, v) :: next :: hash => by
      have hcolon := Fragment.colon.plain (by decide)
      have hcomma := Fragment.comma.plain (by decide)
      have hfirst := Carries.behind ((plain_quoted key).append hcolon) v.carries_code
      exact (hfirst.before hcomma).append (carries_hashText (next :: hash))

end

theorem Shown.carries_code (shown : Shown) : Carries shown.code shown.accesses := by
  cases shown with
  | value v => exact v.carries_code
  | lambda access =>
      have hopen := Fragment.lambda.plain (by decide)
      have hclose := Fragment.lambdaEnd.plain (by decide)
      exact (Carries.behind hopen access.carries_code).before hclose
  | helperOrField name access tag =>
      have htest := Fragment.fieldTest.plain (by decide)
      have halternative := Fragment.alternative.plain (by decide)
      have hcall := Fragment.fieldCall.plain (by decide)
      have hend := Fragment.fieldEnd.plain (by decide)
      have hname := htest.around (plain_helperText name) halternative
      have hfield := (Carries.behind hname access.carries_code).before hcall
      exact (hfield.before (plain_optionsText name tag plain_empty)).before hend

theorem carries_valueBlockText
    (access : Access) {options : String} (hoptions : Plain options) :
    Carries (valueBlockText access options) [access] := by
  have hopen := Fragment.valueBlock.plain (by decide)
  have hcomma := Fragment.spacedComma.plain (by decide)
  have hclose := Fragment.closeParen.plain (by decide)
  have hvalue := (Carries.behind hopen access.carries_code).before hcomma
  exact (hvalue.before hoptions).before hclose

theorem Opening.carries_code
    (opening : Opening) {sections : String} (hsections : Plain sections) :
    Carries (opening.code sections) opening.accesses := by
  cases opening with
  | helper call => exact call.carries_code hsections
  | value access name tag =>
      exact carries_valueBlockText access (plain_optionsText name tag hsections)
  | helperOrValue called access name tag =>
      have htest := Fragment.blockTest.plain (by decide)
      have hcall := Fragment.blockCall.plain (by decide)
      have hbetween := Fragment.spacedColon.plain (by decide)
      have hclose := Fragment.closeParen.plain (by decide)
      have hoptions := plain_optionsText name tag hsections
      have hname := htest.around (plain_helperText called) hcall
      have hfirst := hname.around hoptions hbetween
      exact (Carries.behind hfirst (carries_valueBlockText access hoptions)).before hclose

theorem carries_context (context : Option Value) :
    Carries ((context.map Value.code).getD "depth0") (contextAccesses context) := by
  cases context with
  | none => exact (Fragment.context.plain (by decide)).carries_nil
  | some v => exact v.carries_code

theorem carries_inclusionHashText (hash : List (String × Value)) :
    Carries (inclusionHashText hash) (hashAccesses hash) := by
  cases hash with
  | nil => exact plain_empty.carries_nil
  | cons field hash =>
      have hopen := Fragment.inclusionHash.plain (by decide)
      have hclose := Fragment.closeBrace.plain (by decide)
      exact (Carries.behind hopen (carries_hashText (field :: hash))).before hclose

theorem carries_inclusionText
    (name : String) (context : Option Value) (hash : List (String × Value)) :
    Carries (inclusionText name context hash) (contextAccesses context ++ hashAccesses hash) := by
  have hcomma := Fragment.comma.plain (by decide)
  have hname := Fragment.inclusionName.plain (by decide)
  have hdata := Fragment.inclusionData.plain (by decide)
  have hend := Fragment.inclusionEnd.plain (by decide)
  have hcall := (plain_head .invocation rfl).around (plain_partialText name) hcomma
  have hcontext := (Carries.behind hcall (carries_context context)).before hname
  have hhash := (hcontext.before (plain_quoted name)).append (carries_inclusionHashText hash)
  exact (hhash.before hdata).before hend

theorem Carries.orEmpty {code : String} {as : List Access} (h : Carries code as) :
    Carries (orEmpty code) as := by
  have hopen := Fragment.stackStart.plain (by decide)
  have hclose := Fragment.stackEnd.plain (by decide)
  exact (Carries.behind hopen h).before hclose

namespace Line

/-- The text of a line is plain, unless the line escapes its value. -/
theorem carries_code
    (line : Line SectionRef) (hplain : ∀ shown tag, line ≠ .mustache true shown tag) :
    Carries line.code line.accesses := by
  cases line with
  | text s => exact (plain_quoted s).carries_nil
  | mustache escaped shown tag =>
      cases escaped with
      | true => exact absurd rfl (hplain shown tag)
      | false => exact shown.carries_code.orEmpty
  | block opening main inverse tag =>
      exact (opening.carries_code (plain_sectionsText main inverse)).orEmpty
  | inclusion name context hash tag => exact (carries_inclusionText name context hash).orEmpty

/-- The accesses of a line stand in its statement in order. -/
theorem inTurn_marks (line : Line SectionRef) :
    InTurn (line.accesses.map Access.marks) line.marks := by
  have hcode :
      ∃ ms, scan line.code.toList = some ms ∧ InTurn (line.accesses.map Access.marks) ms := by
    by_cases hescaped : ∃ shown tag, line = .mustache true shown tag
    · obtain ⟨shown, tag, rfl⟩ := hescaped
      obtain ⟨ms, hms, -, hturn⟩ := shown.carries_code
      refine ⟨_, scan_escaped hms, ?_⟩
      rw [escapedMarks, List.append_assoc]
      have hbefore := hturn.append (.nil [.char ')'])
      rw [List.append_nil] at hbefore
      exact hbefore.behind _
    · push Not at hescaped
      obtain ⟨ms, hms, -, hturn⟩ := line.carries_code hescaped
      exact ⟨ms, hms, hturn⟩
  obtain ⟨ms, hms, hturn⟩ := hcode
  obtain ⟨ms', hms', -, -, hmarks⟩ := line.exists_marks_eq
  rw [hms'] at hms
  rw [hmarks, Option.some.inj hms]
  exact hturn.behind appendHead

end Line

/-! ## What accesses mention -/

/-- Whether a mention is the root of an access. -/
def Mention.isRoot : Mention → Bool
  | outer _ => true
  | blockParam _ _ => true
  | _ => false

/-- The mentions that are roots of accesses. -/
def rootsIn (ms : List Mention) : List Mention :=
  ms.filter Mention.isRoot

/-- The mentions of the roots of accesses. -/
def rootMentions (as : List Access) : List Mention :=
  as.flatMap fun access => access.root.mentions

@[simp]
theorem rootsIn_append (ms ns : List Mention) : rootsIn (ms ++ ns) = rootsIn ms ++ rootsIn ns :=
  List.filter_append ..

@[simp]
theorem rootMentions_append (as bs : List Access) :
    rootMentions (as ++ bs) = rootMentions as ++ rootMentions bs :=
  List.flatMap_append

theorem rootsIn_root (access : Access) :
    rootsIn access.root.mentions = rootMentions [access] := by
  simp only [rootMentions, List.flatMap_cons, List.flatMap_nil, List.append_nil]
  cases access.root <;> rfl

mutual

theorem Value.rootsIn_mentions : ∀ v : Value, rootsIn v.mentions = rootMentions v.accesses
  | .literal _ => rfl
  | .access access => rootsIn_root access
  | .call call => call.rootsIn_mentions

theorem HelperCall.rootsIn_mentions :
    ∀ call : HelperCall, rootsIn call.mentions = rootMentions call.accesses
  | { name, known, params, hash, tag } => by
      have hparams := rootsIn_valuesMentions params
      have hhash := rootsIn_hashMentions hash
      have hname : rootsIn (.helper name :: (valuesMentions params ++ hashMentions hash)) =
          rootsIn (valuesMentions params ++ hashMentions hash) := rfl
      rw [HelperCall.mentions, HelperCall.accesses, hname, rootsIn_append, hparams, hhash,
        rootMentions_append]

theorem rootsIn_valuesMentions :
    ∀ vs : List Value, rootsIn (valuesMentions vs) = rootMentions (valuesAccesses vs)
  | [] => rfl
  | v :: vs => by
      rw [valuesMentions, valuesAccesses, rootsIn_append, rootMentions_append,
        v.rootsIn_mentions, rootsIn_valuesMentions vs]

theorem rootsIn_hashMentions :
    ∀ hash : List (String × Value), rootsIn (hashMentions hash) = rootMentions (hashAccesses hash)
  | [] => rfl
  | (_, v) :: hash => by
      rw [hashMentions, hashAccesses, rootsIn_append, rootMentions_append, v.rootsIn_mentions,
        rootsIn_hashMentions hash]

end

/-- A line mentions the outer contexts and the block parameters that it reads. -/
theorem Line.rootsIn_mentions {σ : Type} (line : Line σ) :
    rootsIn line.mentions = rootMentions line.accesses := by
  cases line with
  | text s => rfl
  | mustache escaped shown tag =>
      cases shown with
      | value v => exact v.rootsIn_mentions
      | lambda access => exact rootsIn_root access
      | helperOrField name access tag => exact rootsIn_root access
  | block opening main inverse tag =>
      cases opening with
      | helper call => exact call.rootsIn_mentions
      | value access name tag => exact rootsIn_root access
      | helperOrValue called access name tag => exact rootsIn_root access
  | inclusion name context hash tag =>
      have hcontext : rootsIn (contextMentions context) = rootMentions (contextAccesses context) := by
        cases context with
        | none => rfl
        | some v => exact v.rootsIn_mentions
      have hcall : rootsIn (Line.inclusion (σ := σ) name context hash tag).mentions =
          rootsIn (contextMentions context ++ hashMentions hash) := rfl
      rw [hcall, rootsIn_append, hcontext, rootsIn_hashMentions, Line.accesses, rootMentions_append]

/-- A root is mentioned by a line just where an access of the line starts at it. -/
theorem Line.mem_mentions_iff
    {σ : Type} (line : Line σ) {m : Mention} (hroot : m.isRoot = true) :
    m ∈ line.mentions ↔ ∃ access ∈ line.accesses, m ∈ access.root.mentions := by
  have hroots : m ∈ line.mentions ↔ m ∈ rootsIn line.mentions := by
    simp [rootsIn, hroot]
  rw [hroots, line.rootsIn_mentions, rootMentions, List.mem_flatMap]

theorem Root.blockParam_mem_mentions {root : Root} {level index : Nat} :
    .blockParam level index ∈ root.mentions ↔ root = .blockParam level index := by
  cases root <;> simp [Root.mentions, eq_comm]

theorem Root.outer_mem_mentions {root : Root} {depth : Nat} :
    .outer depth ∈ root.mentions ↔ root = .parent depth := by
  cases root <;> simp [Root.mentions, eq_comm]

end Spec
end TemplateModules
