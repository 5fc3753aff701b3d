import TemplateModules.Proofs.Spec.Mention

/-!
# Emitted code

Code is emitted in pieces: the compiler's own fragments, decimal numbers, numerals of the template
and string literals.  Only numerals and literals come from a template.

`Emits` collects what is known of a stretch of code: that it consists of such pieces, that no
literal is left open, what its brackets do, and what it mentions.  Stretches of code are put
together by `Emits.append`, so each function that writes code has one lemma that follows its
definition.
-/

namespace TemplateModules
namespace Spec

open Script Template Text

/-! ## Pieces of code -/

/-- The fragments that the compiler writes by itself, except for the starts of mentions.  With each
go the closing brackets that it uses up and those that it leaves to be written. -/
inductive Fragment : String → List Char → List Char → Prop where
  | headingStart : Fragment "\"compiler\":[" [] [']']
  | headingEnd : Fragment "],\"main\":" [']'] []
  | signature : Fragment signature [] ['\x7d']
  | variables : Fragment
      "  var stack1, alias1 = depth0 != null ? depth0 : (container.nullContext || \x7b\x7d), " [] []
  | buffer : Fragment "buffer = \"\";" [] []
  | propertyReader : Fragment
      "  var lookupProperty = container.lookupProperty || function(parent, propertyName) \x7b "
      [] ['\x7d']
  | propertyTest : Fragment
      "if (Object.prototype.hasOwnProperty.call(parent, propertyName)) \x7b " [] ['\x7d']
  | propertyResult : Fragment "return parent[propertyName]; \x7d return undefined; \x7d;"
      ['\x7d', '\x7d'] []
  | pathReader : Fragment "  var lookupPath = function(obj, parts) \x7b " [] ['\x7d']
  | pathLoop : Fragment "for (var i = 0; i < parts.length && obj != null; i++) \x7b obj = "
      [] ['\x7d']
  | pathStep : Fragment "lookupProperty(obj, parts[i]); \x7d return obj; \x7d;" ['\x7d', '\x7d'] []
  | strictPathLoop : Fragment "for (var i = 0; i < parts.length; i++) \x7b obj = " [] ['\x7d']
  | strictPathStep : Fragment "container.strict(obj, parts[i]); \x7d return obj; \x7d;"
      ['\x7d', '\x7d'] []
  | closing : Fragment closingLines ['\x7d'] []
  | newline : Fragment "\n" [] []
  | indent : Fragment "  " [] []
  | statementStart : Fragment "buffer += " [] []
  | statementEnd : Fragment ";" [] []
  | comma : Fragment "," [] []
  | spacedComma : Fragment ", " [] []
  | colon : Fragment ":" [] []
  | spacedColon : Fragment ") : " [')'] []
  | openParen : Fragment "(" [] [')']
  | closeParen : Fragment ")" [')'] []
  | openBracket : Fragment "[" [] [']']
  | closeBracket : Fragment "]" [']'] []
  | innerBrackets : Fragment "][" [']'] [']']
  | openBrace : Fragment "\x7b" [] ['\x7d']
  | closeBrace : Fragment "\x7d" ['\x7d'] []
  | closeBraces : Fragment "\x7d\x7d" ['\x7d', '\x7d'] []
  | emptyObject : Fragment noHash [] []
  | stackStart : Fragment "((stack1 = " [] [')', ')']
  | stackEnd : Fragment ") != null ? stack1 : \"\")" [')', ')'] []
  | trueLiteral : Fragment "true" [] []
  | falseLiteral : Fragment "false" [] []
  | nullLiteral : Fragment "null" [] []
  | undefinedLiteral : Fragment "undefined" [] []
  | context : Fragment "depth0" [] []
  | data : Fragment "data" [] []
  | path : Fragment "lookupPath(" [] [')']
  | noSection : Fragment "container.noop" [] []
  | mainSection : Fragment ",\"fn\":" [] []
  | inverseSection : Fragment ",\"inverse\":" [] []
  | sectionData : Fragment ", data, " [] []
  | sectionEnd : Fragment ", blockParams, depths)" [')'] []
  | placeStart : Fragment "\x7b\"start\":\x7b\"line\":" [] ['\x7d', '\x7d']
  | placeColumn : Fragment ",\"column\":" [] []
  | placeEnd : Fragment "\x7d,\"end\":\x7b\"line\":" ['\x7d'] ['\x7d']
  | name : Fragment "\x7b\"name\":" [] ['\x7d']
  | hash : Fragment ",\"hash\":" [] []
  | dataAndPlace : Fragment ",\"data\":data,\"loc\":" [] []
  | missingHelper : Fragment " || container.hooks.helperMissing)" [')'] []
  | call : Fragment ".call(alias1" [] [')']
  | lambda : Fragment "container.lambda(" [] [')']
  | lambdaEnd : Fragment ", depth0)" [')'] []
  | fieldTest : Fragment "(typeof (stack1 = (" [] [')', ')', ')']
  | alternative : Fragment " || " [] []
  | fieldCall : Fragment ")) === \"function\" ? stack1.call(alias1, " [')', ')'] [')']
  | fieldEnd : Fragment ") : stack1)" [')', ')'] []
  | valueBlock : Fragment "container.hooks.blockHelperMissing.call(depth0, " [] [')']
  | blockTest : Fragment "(typeof (stack1 = " [] [')', ')']
  | blockCall : Fragment ") === \"function\" ? stack1.call(alias1, " [')'] [')']
  | inclusionName : Fragment ",\x7b\"name\":" [] ['\x7d']
  | inclusionHash : Fragment ",\"hash\":\x7b" [] ['\x7d']
  | inclusionData : Fragment ",\"data\":data,\"helpers\":helpers,\"partials\":partials," [] []
  | inclusionEnd : Fragment "\"decorators\":container.decorators\x7d)" ['\x7d', ')'] []
  | escape : Fragment "container.escapeExpression(" [] [')']
  | useData : Fragment ",\"useData\":true" [] []
  | useDepths : Fragment ",\"useDepths\":true" [] []
  | useBlockParams : Fragment ",\"useBlockParams\":true" [] []
  | usePartial : Fragment ",\"usePartial\":true" [] []

/-- A piece of code. -/
inductive Piece where
  | fixed (text : String) (closes opens : List Char) (own : Fragment text closes opens)
  /-- The start of a mention. -/
  | head (kind : MentionKind)
  | decimal (n : Nat)
  | number (numeral : Numeral)
  | literal (value : String)

namespace Piece

/-- The text of a piece. -/
def chars : Piece → List Char
  | fixed text _ _ _ => text.toList
  | head kind => kind.head
  | decimal n => (toString n).toList
  | number numeral => numeral.text.toList
  | literal value => (quoted value).toList

/-- What a scan meets in a piece. -/
def marks : Piece → List Mark
  | fixed text _ _ _ => (scan text.toList).getD []
  | head kind => Script.chars kind.head
  | decimal n => Script.chars (toString n).toList
  | number numeral => Script.chars numeral.text.toList
  | literal value => [.literal (escaped value.toList)]

end Piece

/-! ## Emission -/

/-- A text consists of pieces, and its brackets lead from some awaited closing brackets to
others. -/
structure Written (pieces : List Piece) (text : String) (before after : List Char) : Prop where
  toList_eq : text.toList = pieces.flatMap Piece.chars
  scan_eq : scan text.toList = some (pieces.flatMap Piece.marks)
  nest_eq : nest before (pieces.flatMap Piece.marks) = some after

/-- A text is code that leads from some awaited closing brackets to others, and it holds the
mentions of a list. -/
def Emits (text : String) (before after : List Char) (found : List Mention) : Prop :=
  ∃ pieces, Written pieces text before after ∧ Mentions (pieces.flatMap Piece.marks) found

/-- A text is code that closes its own brackets and no others. -/
abbrev EmitsWhole (text : String) (found : List Mention) : Prop :=
  Emits text [] [] found

variable {a b text : String} {before between after : List Char} {found others : List Mention}

namespace Written

theorem append
    {ps qs : List Piece}
    (hps : Written ps a before between) (hqs : Written qs b between after) :
    Written (ps ++ qs) (a ++ b) before after where
  toList_eq := by
    rw [String.toList_append, hps.toList_eq, hqs.toList_eq, List.flatMap_append]
  scan_eq := by
    rw [String.toList_append, List.flatMap_append]
    exact scan_append hps.scan_eq hqs.scan_eq
  nest_eq := by
    rw [List.flatMap_append, nest_append, hps.nest_eq, Option.bind_some, hqs.nest_eq]

theorem frame {ps : List Piece} (h : Written ps text before after) (outer : List Char) :
    Written ps text (before ++ outer) (after ++ outer) where
  toList_eq := h.toList_eq
  scan_eq := h.scan_eq
  nest_eq := nest_frame h.nest_eq outer

end Written

namespace Emits

theorem append (ha : Emits a before between found) (hb : Emits b between after others) :
    Emits (a ++ b) before after (found ++ others) := by
  obtain ⟨ps, hps, hfound⟩ := ha
  obtain ⟨qs, hqs, hothers⟩ := hb
  refine ⟨ps ++ qs, hps.append hqs, ?_⟩
  rw [List.flatMap_append]
  exact hfound.append hothers

/-- Code without mentions adds none. -/
theorem append_silent (ha : Emits a before between found) (hb : Emits b between after []) :
    Emits (a ++ b) before after found := by
  simpa using ha.append hb

theorem frame (h : Emits text before after found) (outer : List Char) :
    Emits text (before ++ outer) (after ++ outer) found := by
  obtain ⟨ps, hps, hfound⟩ := h
  exact ⟨ps, hps.frame outer, hfound⟩

theorem append_whole (ha : Emits a before between found) (hb : EmitsWhole b others) :
    Emits (a ++ b) before between (found ++ others) :=
  ha.append (hb.frame between)

/-- Only which mentions there are matters. -/
theorem congr (h : Emits text before after found) (hsame : ∀ m, m ∈ found ↔ m ∈ others) :
    Emits text before after others := by
  obtain ⟨pieces, hpieces, hfound⟩ := h
  exact ⟨pieces, hpieces, hfound.congr hsame⟩

/-- A scan of code meets the mentions of its list and no others. -/
theorem exists_scan (h : Emits text before after found) :
    ∃ ms, scan text.toList = some ms ∧ (∀ m : Mention, m.Occurs ms ↔ m ∈ found) ∧ WellMade ms := by
  obtain ⟨pieces, hpieces, hfound⟩ := h
  obtain ⟨-, hadds⟩ := hfound [] (by simp [Fresh])
  refine ⟨_, hpieces.scan_eq, fun m => ?_, ?_⟩
  · have hnone : ¬m.Occurs [] := by
      intro hm
      obtain ⟨c, d, tail, hhead, -⟩ := m.kind.exists_head_eq
      simp [Mention.Occurs, Mention.marks, hhead] at hm
    have hiff := hadds.occurs_iff m
    rwa [List.append_nil, or_iff_left hnone] at hiff
  · have hmade : WellMade ([] : List Mark) := by
      intro s hs k hk
      obtain ⟨c, d, tail, hhead, -⟩ := k.exists_head_eq
      simp [List.suffix_nil.mp hs, hhead] at hk
    simpa using hadds.wellMade hmade

end Emits

theorem emitsWhole_empty : EmitsWhole "" [] :=
  ⟨[], ⟨rfl, rfl, rfl⟩, mentions_nil⟩

/-! ## Numerals -/

/-- The characters of numerals besides digits. -/
def numeralMarks : List Char := ['-', '+', '.', 'e', 'E']

/-- Whether a character may stand in a numeral. -/
def InNumeral (c : Char) : Prop :=
  isDigit c = true ∨ c ∈ numeralMarks

theorem inNumeral_of_dropWhile
    {cs : List Char} (h : ∀ c ∈ cs.dropWhile isDigit, InNumeral c) :
    ∀ c ∈ cs, InNumeral c := by
  intro c hc
  rw [← List.takeWhile_append_dropWhile (p := isDigit) (l := cs), List.mem_append] at hc
  rcases hc with hdigit | hrest
  · exact Or.inl (List.all_eq_true.mp List.all_takeWhile c hdigit)
  · exact h c hrest

theorem inNumeral_cons
    {d : Char} {cs : List Char} (hd : d ∈ numeralMarks) (h : ∀ c ∈ cs, InNumeral c) :
    ∀ c ∈ d :: cs, InNumeral c := by
  intro c hc
  rcases List.mem_cons.mp hc with rfl | hc
  · exact Or.inr hd
  · exact h c hc

theorem inNumeral_of_isExponent {cs : List Char} (h : isExponent cs = true) :
    ∀ c ∈ cs, InNumeral c := by
  cases cs with
  | nil => simp
  | cons e cs =>
      simp only [isExponent, Bool.and_eq_true, Bool.or_eq_true, beq_iff_eq] at h
      obtain ⟨⟨he, -⟩, hdigits⟩ := h
      have hmark : e ∈ numeralMarks := by
        rcases he with rfl | rfl <;> decide
      apply inNumeral_cons hmark
      split at hdigits
      · exact inNumeral_cons (by decide) fun c hc => Or.inl (List.all_eq_true.mp hdigits c hc)
      · exact inNumeral_cons (by decide) fun c hc => Or.inl (List.all_eq_true.mp hdigits c hc)
      · exact fun c hc => Or.inl (List.all_eq_true.mp hdigits c hc)

theorem inNumeral_of_dropLeading
    {cs : List Char} (h : ∀ c ∈ dropLeading '-' cs, InNumeral c) :
    ∀ c ∈ cs, InNumeral c := by
  cases cs with
  | nil => simp
  | cons d cs =>
      simp only [dropLeading] at h
      split_ifs at h with hd
      · exact inNumeral_cons (hd ▸ by decide) h
      · exact h

/-- A numeral starts with a sign or a digit, and holds nothing but digits and a few marks. -/
theorem inNumeral_of_isNumber {word : List Char} (h : isNumber word = true) :
    (∀ c ∈ word.head?, c = '-' ∨ isDigit c = true) ∧ ∀ c ∈ word, InNumeral c := by
  simp only [isNumber, Bool.and_eq_true] at h
  obtain ⟨hhead, hrest⟩ := h
  constructor
  · cases word with
    | nil => simp
    | cons c cs =>
        by_cases hc : c = '-'
        · simp [hc]
        · simpa [dropLeading, hc] using hhead
  · apply inNumeral_of_dropLeading
    apply inNumeral_of_dropWhile
    split at hrest
    · next fraction hpoint =>
      rw [hpoint]
      exact inNumeral_cons (by decide) (inNumeral_of_dropWhile (inNumeral_of_isExponent hrest))
    · exact inNumeral_of_isExponent hrest
/-! ## Single pieces -/

/-- Whether a fragment with given marks may stand where closing brackets are awaited, leaves others
behind, and mentions nothing. -/
def fits (before after : List Char) (ms : List Mark) : Bool :=
  ms.head?.any (fun m => m != .char 'o' && m != .char 'e') && quiet ms &&
    nest before ms == some after

theorem exists_fits_of_chars
    {cs : List Char} {ms : List Mark}
    (htext : text = String.ofList cs) (hscan : scan cs = some ms)
    (hfits : fits before after ms = true) :
    ∃ ms, scan text.toList = some ms ∧ fits before after ms = true := by
  rw [htext, String.toList_ofList]
  exact ⟨ms, hscan, hfits⟩

namespace Fragment

/-- Each fragment does to brackets what is said of it, and none of them mentions anything. -/
theorem exists_fits (own : Fragment text before after) :
    ∃ ms, scan text.toList = some ms ∧ fits before after ms = true := by
  cases own <;> exact exists_fits_of_chars rfl rfl (by decide)

theorem written (own : Fragment text before after) :
    Written [.fixed text before after own] text before after := by
  obtain ⟨ms, hscan, hfits⟩ := own.exists_fits
  simp only [fits, Bool.and_eq_true, beq_iff_eq] at hfits
  constructor
  · simp [Piece.chars]
  · simp [Piece.marks, hscan]
  · simp [Piece.marks, hscan, hfits.2]

theorem emits (own : Fragment text before after) : Emits text before after [] := by
  obtain ⟨ms, hscan, hfits⟩ := own.exists_fits
  simp only [fits, Bool.and_eq_true, beq_iff_eq] at hfits
  refine ⟨_, own.written, ?_⟩
  have hmarks : ([.fixed text before after own] : List Piece).flatMap Piece.marks = ms := by
    simp [Piece.marks, hscan]
  rw [hmarks]
  cases ms with
  | nil => simp at hfits
  | cons m ms =>
      apply mentions_of_quiet
      · simpa using hfits.1.1
      · exact hfits.1.2

end Fragment

/-- The characters that mean something outside of literals: quotes, brackets and the first letters
of mentions. -/
def special : List Char :=
  '"' :: (brackets ++ startLetters)

theorem written_plain
    {piece : Piece}
    (hchars : piece.chars = text.toList) (hmarks : piece.marks = chars text.toList)
    (hplain : ∀ c ∈ text.toList, c ∉ special) :
    Written [piece] text [] [] := by
  simp only [special, List.mem_cons, List.mem_append, not_or] at hplain
  have hquote : '"' ∉ text.toList := fun h => (hplain _ h).1 rfl
  constructor
  · simp [hchars]
  · simp [hmarks, scan_chars hquote]
  · simpa [hmarks] using nest_chars_of_no_bracket [] fun c hc => (hplain c hc).2.1

theorem notMem_special_of_mem_toString {n : Nat} :
    ∀ c ∈ (toString n).toList, c ∉ special := by
  intro c hc hmem
  have hnone : special.all (fun d => !d.isDigit) = true := by decide
  have hnotDigit := List.all_eq_true.mp hnone c hmem
  simp [isDigit_of_mem_toString hc] at hnotDigit

theorem written_toString (n : Nat) : Written [.decimal n] (toString n) [] [] :=
  written_plain rfl rfl notMem_special_of_mem_toString

theorem emitsWhole_toString (n : Nat) : EmitsWhole (toString n) [] :=
  ⟨[.decimal n], written_toString n, by simpa [Piece.marks] using mentions_toString n⟩

theorem emitsWhole_numeral (numeral : Numeral) : EmitsWhole numeral.text [] := by
  obtain ⟨hhead, hall⟩ := inNumeral_of_isNumber numeral.isNumber_text
  have hfresh : ∀ c ∈ numeral.text.toList.head?, c ≠ 'o' ∧ c ≠ 'e' := by
    intro c hc
    have hnot : isDigit 'o' = false ∧ isDigit 'e' = false := by decide
    rcases hhead c hc with rfl | hdigit
    · decide
    · constructor
      · rintro rfl
        simp [hnot.1] at hdigit
      · rintro rfl
        simp [hnot.2] at hdigit
  have hplain : ∀ c ∈ numeral.text.toList, c ∉ special := by
    intro c hc hmem
    have hnone : special.all (fun d => !isDigit d && !numeralMarks.contains d) = true := by decide
    have hnot := List.all_eq_true.mp hnone c hmem
    rcases hall c hc with hdigit | hmark
    · simp [hdigit] at hnot
    · simp [hmark] at hnot
  have hletters : ∀ c ∈ numeral.text.toList, c ∉ startLetters := by
    intro c hc hmem
    exact hplain c hc (by simp [special, hmem])
  refine ⟨[.number numeral], written_plain rfl rfl hplain, ?_⟩
  simpa [Piece.marks] using mentions_chars hfresh hletters

theorem written_quoted (value : String) : Written [.literal value] (quoted value) [] [] where
  toList_eq := by simp [Piece.chars]
  scan_eq := by simpa [Piece.marks] using scan_quoted value
  nest_eq := by simp [Piece.marks, nest_cons, bracket]

theorem emitsWhole_quoted (value : String) : EmitsWhole (quoted value) [] :=
  ⟨[.literal value], written_quoted value,
    by simpa [Piece.marks] using mentions_literal (escaped value.toList)⟩

/-! ## Mentions -/

/-- Code leads from some awaited closing brackets to others, and a scan meets given marks in it. -/
def Traces (text : String) (ms : List Mark) (before after : List Char) : Prop :=
  ∃ pieces, Written pieces text before after ∧ pieces.flatMap Piece.marks = ms

theorem Traces.append
    {ms ns : List Mark}
    (ha : Traces a ms before between) (hb : Traces b ns between after) :
    Traces (a ++ b) (ms ++ ns) before after := by
  obtain ⟨ps, hps, rfl⟩ := ha
  obtain ⟨qs, hqs, rfl⟩ := hb
  exact ⟨ps ++ qs, hps.append hqs, List.flatMap_append⟩

theorem Traces.frame
    {ms : List Mark}
    (h : Traces text ms before after) (outer : List Char) :
    Traces text ms (before ++ outer) (after ++ outer) := by
  obtain ⟨ps, hps, hms⟩ := h
  exact ⟨ps, hps.frame outer, hms⟩

theorem Fragment.traces (own : Fragment text before after) (hquote : '"' ∉ text.toList) :
    Traces text (chars text.toList) before after :=
  ⟨_, own.written, by simp [Piece.marks, scan_chars hquote]⟩

theorem traces_toString (n : Nat) (outer : List Char) :
    Traces (toString n) (chars (toString n).toList) outer outer :=
  ⟨_, (written_toString n).frame outer, by simp [Piece.marks]⟩

theorem traces_quoted (value : String) (outer : List Char) :
    Traces (quoted value) [.literal (escaped value.toList)] outer outer :=
  ⟨_, (written_quoted value).frame outer, by simp [Piece.marks]⟩

/-- The closing bracket of the start of a mention. -/
def MentionKind.closer : MentionKind → Char
  | outer => ']'
  | blockParam => ']'
  | _ => ')'

/-- The start of a mention opens one bracket. -/
theorem traces_head (kind : MentionKind) (htext : text.toList = kind.head) :
    Traces text (chars kind.head) [] [kind.closer] := by
  have hquote : '"' ∉ kind.head ∧ nest [] (chars kind.head) = some [kind.closer] := by
    cases kind <;> decide
  refine ⟨[.head kind], ⟨?_, ?_, ?_⟩, ?_⟩
  · simp [Piece.chars, htext]
  · simp [Piece.marks, htext, scan_chars hquote.1]
  · simp [Piece.marks, hquote.2]
  · simp [Piece.marks]

/-- The text of a mention is code with its marks. -/
theorem Mention.traces (m : Mention) (hkind : m.kind ≠ .invocation) :
    Traces m.text m.marks [] [] := by
  have hparen : Traces ")" (chars ")".toList) [')'] [] := Fragment.closeParen.traces (by decide)
  have hbracket : Traces "]" (chars "]".toList) [']'] [] :=
    Fragment.closeBracket.traces (by decide)
  cases m with
  | helper name =>
      have hopen : Traces "lookupProperty(helpers," _ [] [')'] := traces_head .helper rfl
      exact (hopen.append (traces_quoted name _)).append hparen
  | inclusion name =>
      have hopen : Traces "lookupProperty(partials," _ [] [')'] := traces_head .inclusion rfl
      exact (hopen.append (traces_quoted name _)).append hparen
  | child ref =>
      have hopen : Traces "container.program(" _ [] [')'] := traces_head .child rfl
      have hdata := (Fragment.sectionData.traces (by decide)).frame [')']
      have hclose := Fragment.sectionEnd.traces (by decide)
      rw [marks, arguments, ← List.append_assoc, ← List.append_assoc, ← List.append_assoc]
      exact (((hopen.append (traces_toString ref.number _)).append hdata).append
        (traces_toString ref.params _)).append hclose
  | outer depth =>
      have hopen : Traces "depths[" _ [] [']'] := traces_head .outer rfl
      rw [marks, arguments, ← List.append_assoc]
      exact (hopen.append (traces_toString depth _)).append hbracket
  | blockParam level index =>
      have hopen : Traces "blockParams[" _ [] [']'] := traces_head .blockParam rfl
      have hbetween := Fragment.innerBrackets.traces (by decide)
      rw [marks, arguments, ← List.append_assoc, ← List.append_assoc, ← List.append_assoc]
      exact (((hopen.append (traces_toString level _)).append hbetween).append
        (traces_toString index _)).append hbracket
  | invocation => exact absurd rfl hkind

/-- The text of a mention emits this mention. -/
theorem Mention.emits (m : Mention) (hkind : m.kind ≠ .invocation) : EmitsWhole m.text [m] := by
  obtain ⟨pieces, hpieces, hmarks⟩ := m.traces hkind
  exact ⟨pieces, hpieces, hmarks ▸ m.mentions_marks⟩

/-- The call that includes a partial is closed behind its arguments. -/
theorem emits_invocation :
    Emits "container.invokePartial(" [] [')'] [.invocation] := by
  obtain ⟨pieces, hpieces, hmarks⟩ := traces_head .invocation rfl
  have hmentions := Mention.invocation.mentions_marks
  rw [Mention.marks, Mention.arguments, List.append_nil] at hmentions
  exact ⟨pieces, hpieces, hmarks ▸ hmentions⟩

end Spec
end TemplateModules
