import TemplateModules.Proofs.Spec.Compiled
import TemplateModules.Proofs.Spec.Emitted
import TemplateModules.Proofs.Spec.Occurrences

/-!
# Calls keep their arguments

If only known helpers may be called, then a call with arguments is either one of a known helper, and
is written with all of them, or its head is a block parameter.  A block parameter is a value, so
such a call is written as the value alone.

Each function that compiles a piece of a template has one lemma here: the text of what it gives
keeps the calls of the piece.
-/

namespace TemplateModules
namespace Spec

open Script Template Text

section

variable {options : Options} {scopes : Scopes} {tag : Span}

/-- A call whose head is a block parameter is written as its value. -/
theorem keeps_shadowed
    {call : Call} {path : Path} {access : Access} (hshadowed : shadowed? scopes call = some path)
    (haccess : (compilePath scopes path tag).result = .ok access) :
    Keeps options access.code (call.occurrences scopes tag) := by
  obtain ⟨hhead, name, level, index, hname, hscope⟩ := exists_of_shadowed? hshadowed
  obtain ⟨head, params, hash⟩ := call
  have hcall : Call.simpleName? { head, params, hash } = some name := by
    rw [Call.simpleName?, hhead]
    exact hname
  have hcode := compilePath_blockParam hname hscope haccess
  have hwritten : WrittenAs options
      { scopes, tag, call := { head, params, hash } } (Root.blockParam level index).code :=
    .blockParam hcall hscope
  rw [Call.occurrences, hshadowed, Option.isSome_some, if_pos rfl, hcode]
  have hscan : Scans (Root.blockParam level index).code := (Root.emits_code _).scans
  have hstands : StandsAt ((Root.blockParam level index).code ++ "")
      (Root.blockParam level index).code 0 :=
    ⟨"", "", by simp, rfl, rfl⟩
  have hkeeps := Keeps.cons hwritten hstands hwritten.length_pos hscan Keeps.nil
  rwa [String.append_empty] at hkeeps

/-! ## Calls -/

theorem occurrences_of_simpleName?
    {call : Call} {name : String} (hshadowed : shadowed? scopes call = none)
    (hname : call.simpleName? = some name) :
    call.occurrences scopes tag = { scopes, tag, call } ::
      (paramsOccurrences scopes tag call.params ++ hashOccurrences scopes tag call.hash) := by
  obtain ⟨head, params, hash⟩ := call
  have hhead : head.occurrences scopes tag = [] := by
    cases head with
    | path path => rfl
    | literal value => rfl
    | sub call => cases hname
  rw [Call.occurrences, hshadowed, hhead]
  rfl

theorem HelperCall.code_known
    (name sections : String) (params : List Value) (hash : List (String × Value)) (tag : Span) :
    HelperCall.code sections { name, known := true, params, hash, tag } =
      helperText name ++ ".call(alias1" ++ paramsText params ++ ", " ++
        optionsText name ("\x7b" ++ hashText hash ++ "\x7d") sections tag ++ ")" :=
  rfl

/-- A call of a known helper is kept if those in its arguments are. -/
theorem keeps_helperCall
    {call : Call} {name : String} {params : List Value} {fields : List (String × Value)}
    (hshadowed : shadowed? scopes call = none) (hname : call.simpleName? = some name)
    (hknown : options.isKnown name = true)
    (hparams : (compileValues options scopes tag call.params).result = .ok params)
    (hfields : (compileHash options scopes tag call.hash).result = .ok fields)
    (hkeptParams : Keeps options (paramsText params) (paramsOccurrences scopes tag call.params))
    (hkeptFields : Keeps options (hashText fields) (hashOccurrences scopes tag call.hash))
    (sections : String) :
    Keeps options (HelperCall.code sections { name, known := true, params, hash := fields, tag })
      (call.occurrences scopes tag) := by
  have hwritten : WrittenAs options { scopes, tag, call } _ :=
    .helper hname (blockParam?_of_shadowed? hshadowed hname) hknown
      (forall₂_of_compileValues call.params params hparams)
      (forall₂_of_compileHash call.hash fields hfields)
  have hlead : Scans (helperText name ++ ".call(alias1") :=
    (emits_helperText name).scans.append Fragment.call.emits.scans
  have hbetween : Scans (", " ++ "\x7b\"name\":" ++ quoted name ++ ",\"hash\":" ++ "\x7b") :=
    (((Fragment.spacedComma.emits.scans.append Fragment.name.emits.scans).append
      (emitsWhole_quoted name).scans).append Fragment.hash.emits.scans).append
      Fragment.openBrace.emits.scans
  have hpos : 0 < (helperText name ++ ".call(alias1").length := by
    have hcall : 0 < ".call(alias1".length := by decide +kernel
    rw [String.length_append]
    exact Nat.add_pos_right _ hcall
  have harguments := hkeptParams.append (emits_paramsText params).scans
    ((hkeptFields.before ("\x7d" ++ (sections ++ ",\"data\":data,\"loc\":" ++ placeText tag ++
      "\x7d" ++ ")"))).after hbetween)
  have htext : HelperCall.code sections { name, known := true, params, hash := fields, tag } =
      helperText name ++ ".call(alias1" ++ (paramsText params ++
        (", " ++ "\x7b\"name\":" ++ quoted name ++ ",\"hash\":" ++ "\x7b" ++ (hashText fields ++
          ("\x7d" ++ (sections ++ ",\"data\":data,\"loc\":" ++ placeText tag ++ "\x7d" ++
            ")"))))) := by
    rw [HelperCall.code_known]
    unfold optionsText
    simp only [String.append_assoc]
  rw [occurrences_of_simpleName? hshadowed hname, htext]
  refine Keeps.cons hwritten ?_ hpos hlead harguments
  have hcode := HelperCall.code_eq_callText options name sections params fields tag
  rw [hknown, calleeText, if_pos hknown] at hcode
  rw [← htext, hcode]
  exact ⟨"", _, by rw [String.empty_append], rfl, rfl⟩

mutual

theorem keeps_compileValue (honly : options.knownHelpersOnly = true) :
    ∀ (e : Expr) (v : Value), (compileValue options scopes tag e).result = .ok v →
      Keeps options v.code (e.occurrences scopes tag)
  | .path _, _, _ => .nil
  | .literal _, _, _ => .nil
  | .sub call, v, h => keeps_compileSub honly call v h

theorem keeps_compileSub (honly : options.knownHelpersOnly = true) :
    ∀ (call : Call) (v : Value), (compileSub options scopes tag call).result = .ok v →
      Keeps options v.code (call.occurrences scopes tag)
  | { head, params, hash }, v, h => by
      unfold compileSub at h
      split at h
      · next path hshadowed =>
        obtain ⟨access, haccess, h⟩ := Reporting.exists_of_bind h
        cases h
        exact keeps_shadowed hshadowed haccess
      · next hshadowed =>
        split at h
        · cases h
        · next name hname =>
          simp only at h
          split at h
          · exact absurd h refuseUnknown_ne_ok
          · next hallowed =>
            have hknown : options.isKnown name = true := by simpa [honly] using hallowed
            obtain ⟨-, -, h⟩ := Reporting.exists_of_bind h
            obtain ⟨vs, hvs, h⟩ := Reporting.exists_of_bind h
            obtain ⟨fields, hfields, h⟩ := Reporting.exists_of_bind h
            cases h
            rw [Value.code, hknown]
            exact keeps_helperCall hshadowed hname hknown hvs hfields
              (keeps_compileValues honly params vs hvs) (keeps_compileHash honly hash fields hfields)
              ""

theorem keeps_compileValues (honly : options.knownHelpersOnly = true) :
    ∀ (es : List Expr) (vs : List Value), (compileValues options scopes tag es).result = .ok vs →
      Keeps options (paramsText vs) (paramsOccurrences scopes tag es)
  | [], vs, h => .nil
  | e :: es, vs, h => by
      obtain ⟨v, hv, h⟩ := Reporting.exists_of_bind h
      obtain ⟨vs, hvs, h⟩ := Reporting.exists_of_bind h
      cases h
      have hcomma : Scans "," := Fragment.comma.emits.scans
      have hfirst := (keeps_compileValue honly e v hv).after hcomma
      exact hfirst.append (hcomma.append v.emits_code.scans) (keeps_compileValues honly es vs hvs)

theorem keeps_compileHash (honly : options.knownHelpersOnly = true) :
    ∀ (hash : List (String × Expr)) (fields : List (String × Value)),
      (compileHash options scopes tag hash).result = .ok fields →
        Keeps options (hashText fields) (hashOccurrences scopes tag hash)
  | [], fields, h => .nil
  | (key, e) :: hash, fields, h => by
      obtain ⟨v, hv, h⟩ := Reporting.exists_of_bind h
      obtain ⟨fields, hfields, h⟩ := Reporting.exists_of_bind h
      cases h
      have hkey : Scans (quoted key ++ ":") :=
        (emitsWhole_quoted key).scans.append Fragment.colon.emits.scans
      have hfirst := (keeps_compileValue honly e v hv).after hkey
      have hscan := hkey.append v.emits_code.scans
      have hmore := keeps_compileHash honly hash fields hfields
      cases fields with
      | nil =>
          have hjoined := hfirst.append hscan hmore
          rwa [hashText, String.append_empty] at hjoined
      | cons next fields =>
          exact (hfirst.before ",").append (hscan.append Fragment.comma.emits.scans) hmore

end

/-! ## Statements -/

/-- Of a call without arguments only the head can hold calls to keep. -/
theorem Keeps.of_head
    {text : String} {call : Call} (hshadowed : shadowed? scopes call = none)
    (harguments : call.hasArguments = false)
    (h : Keeps options text (call.head.occurrences scopes tag)) :
    Keeps options text (call.occurrences scopes tag) := by
  obtain ⟨head, params, hash⟩ := call
  have hnone : params = [] ∧ hash = [] := by simpa [Call.hasArguments] using harguments
  obtain ⟨rfl, rfl⟩ := hnone
  obtain ⟨starts, hstarts, hos⟩ := h
  refine ⟨starts, hstarts, ?_⟩
  have hskip : Occurrence.hasArguments
      { scopes, tag, call := { head, params := [], hash := [] } } = false := harguments
  rw [Call.occurrences, hshadowed, List.filter_cons_of_neg (by simp [hskip])]
  simpa [paramsOccurrences, hashOccurrences] using hos

theorem keeps_field
    {text : String} {call : Call} {path : Path} (hshadowed : shadowed? scopes call = none)
    (hhead : call.head = .path path) (harguments : call.hasArguments = false) :
    Keeps options text (call.occurrences scopes tag) := by
  refine Keeps.of_head hshadowed harguments ?_
  rw [hhead]
  exact .nil

/-- Calls of known helpers are kept when they stand in a statement of their own. -/
theorem keeps_compileHelper
    (honly : options.knownHelpersOnly = true) {call : Call} {name : String}
    {compiled : HelperCall} (hshadowed : shadowed? scopes call = none)
    (hname : call.simpleName? = some name) (hknown : options.isKnown name = true)
    (h : (compileHelper options scopes tag name true call).result = .ok compiled)
    (sections : String) :
    Keeps options (compiled.code sections) (call.occurrences scopes tag) := by
  obtain ⟨-, -, h⟩ := Reporting.exists_of_bind h
  obtain ⟨vs, hvs, h⟩ := Reporting.exists_of_bind h
  obtain ⟨fields, hfields, h⟩ := Reporting.exists_of_bind h
  cases h
  exact keeps_helperCall hshadowed hname hknown hvs hfields
    (keeps_compileValues honly _ vs hvs) (keeps_compileHash honly _ fields hfields) sections

/-- The outcome of a call keeps the call if its text holds that of the helper, of the value or of
the plain head. -/
theorem keeps_outcomes
    (honly : options.knownHelpersOnly = true) {α : Type} {outcomes : Outcomes α} {code : α → String}
    {call : Call} {role : Role} {plain : Reporting α} {sections : String} {a : α}
    (hplays : Plays options scopes call role)
    (hhelper : ∀ compiled, code (outcomes.helper compiled) = HelperCall.code sections compiled)
    (hvalue : ∀ path access os, Keeps options access.code os →
      Keeps options (code (outcomes.value path access)) os)
    (hplain : ∀ a, plain.result = .ok a →
      Keeps options (code a) (call.head.occurrences scopes tag))
    (h : (outcomes.compile options scopes tag call plain role).result = .ok a) :
    Keeps options (code a) (call.occurrences scopes tag) := by
  cases hplays with
  | param hshadowed =>
      obtain ⟨access, haccess, h⟩ := Reporting.exists_of_bind h
      cases h
      exact hvalue _ access _ (keeps_shadowed hshadowed haccess)
  | helper hfree hname hcalled =>
      have hknown := hcalled.resolve_right (by simp [honly])
      obtain ⟨compiled, hcompiled, h⟩ := Reporting.exists_of_bind h
      cases h
      rw [hknown] at hcompiled
      rw [hhelper]
      exact keeps_compileHelper honly hfree hname hknown hcompiled sections
  | field hfree hhead harguments => exact keeps_field hfree hhead harguments
  | either hfree hhead hname hunknown harguments => exact keeps_field hfree hhead harguments
  | plain hfree hhead harguments => exact Keeps.of_head hfree harguments (hplain a h)
  | refused => cases h

theorem keeps_compileMustache
    (honly : options.knownHelpersOnly = true) {call : Call} {shown : Shown}
    (h : (compileMustache options scopes tag call).result = .ok shown) :
    Keeps options shown.code (call.occurrences scopes tag) := by
  rw [compileMustache_eq] at h
  refine keeps_outcomes honly plays_mustacheRole (fun _ => rfl) ?_ ?_ h
  · intro path access os hos
    exact (hos.after Fragment.lambda.emits.scans).before _
  · intro shown hshown
    obtain ⟨v, hv, hshown⟩ := Reporting.exists_of_bind hshown
    cases hshown
    exact keeps_compileValue honly _ v hv

theorem keeps_compileOpening
    (honly : options.knownHelpersOnly = true) {call : Call} {opening : Opening}
    (h : (compileOpening options scopes tag call).result = .ok opening) (sections : String) :
    Keeps options (opening.code sections) (call.occurrences scopes tag) := by
  rw [compileOpening_eq] at h
  refine keeps_outcomes honly plays_openingRole (fun _ => rfl) ?_ ?_ h
  · intro path access os hos
    exact (((hos.after Fragment.valueBlock.emits.scans).before _).before _).before _
  · intro opening hopening
    cases hopening

theorem keeps_compileContext
    (honly : options.knownHelpersOnly = true) {context : Option Expr} {value : Option Value}
    (h : (compileContext options scopes tag context).result = .ok value) :
    Keeps options ((value.map Value.code).getD "depth0") (contextOccurrences scopes tag context) := by
  cases context with
  | none => exact .nil
  | some e =>
      obtain ⟨v, hv, h⟩ := Reporting.exists_of_bind h
      cases h
      exact keeps_compileValue honly e v hv

theorem keeps_inclusionText
    {name : String} {value : Option Value} {fields : List (String × Value)}
    {inContext inHash : List Occurrence}
    (hcontext : Keeps options ((value.map Value.code).getD "depth0") inContext)
    (hhash : Keeps options (hashText fields) inHash) :
    Keeps options (inclusionText name value fields) (inContext ++ inHash) := by
  have hlead : Scans ("container.invokePartial(" ++ partialText name ++ ",") :=
    (emits_invocation.scans.append
      (Mention.emits (.inclusion name) (by simp [Mention.kind])).scans).append
      Fragment.comma.emits.scans
  have hstart := hlead.append (emits_context value).scans
  have hopen := hstart.append Fragment.inclusionName.emits.scans
  have hname := hopen.append (emitsWhole_quoted name).scans
  have hfields : Keeps options (inclusionHashText fields) inHash := by
    cases fields with
    | nil => exact hhash
    | cons field fields => exact (hhash.after Fragment.inclusionHash.emits.scans).before _
  exact (((((hcontext.after hlead).before _).before _).append hname hfields).before _).before _

end

/-! ## Lines and functions -/

section

variable {options : Options}

/-- Calls are kept by lines and by the functions of the sections inside them together. -/
def KeptBetween
    (options : Options) (os : List Occurrence)
    (numbered : List (Line SectionRef) × List Function) : Prop :=
  ∃ own inner, (own ++ inner).Perm os ∧
    Keeps options (linesText (numbered.1.map ("  " ++ ·.statement))) own ∧
    ∀ number, Keeps options (childrenText options.strict number numbered.2) inner

theorem childrenText_append (strict : Bool) (number : Nat) (fs gs : List Function) :
    childrenText strict number (fs ++ gs) =
      childrenText strict number fs ++ childrenText strict (number + fs.length) gs := by
  induction fs generalizing number with
  | nil => simp [childrenText]
  | cons f fs ih =>
      simp only [List.cons_append, childrenText, ih, String.append_assoc, List.length_cons,
        Nat.add_assoc, Nat.add_comm 1]

theorem keptBetween_nil : KeptBetween options [] ([], []) :=
  ⟨[], [], .refl _, .nil, fun _ => .nil⟩

theorem KeptBetween.append
    {os others : List Occurrence} {xs ys : List (Line SectionRef)} {fs gs : List Function}
    (hxs : KeptBetween options os (xs, fs)) (hys : KeptBetween options others (ys, gs)) :
    KeptBetween options (os ++ others) (xs ++ ys, fs ++ gs) := by
  obtain ⟨own, inner, hperm, hown, hinner⟩ := hxs
  obtain ⟨own', inner', hperm', hown', hinner'⟩ := hys
  refine ⟨own ++ own', inner ++ inner', ?_, ?_, fun number => ?_⟩
  · have hswap : (own ++ own' ++ (inner ++ inner')).Perm ((own ++ inner) ++ (own' ++ inner')) := by
      rw [List.append_assoc, List.append_assoc]
      exact (List.perm_append_comm_assoc own' inner inner').append_left own
    exact hswap.trans (hperm.append hperm')
  · rw [List.map_append, linesText_append]
    exact hown.append (Function.emits_lines xs).scans hown'
  · rw [childrenText_append]
    exact (hinner number).append (emits_childrenText _ number fs).scans (hinner' _)

/-- A single line keeps the calls of its own code, and its functions those of its sections. -/
theorem keptBetween_line
    {line : Line SectionRef} {fs : List Function} {own inner : List Occurrence}
    (hown : Keeps options line.code own)
    (hinner : ∀ number, Keeps options (childrenText options.strict number fs) inner) :
    KeptBetween options (own ++ inner) ([line], fs) := by
  refine ⟨own, inner, .refl _, ?_, hinner⟩
  have htext : linesText ([line].map ("  " ++ ·.statement)) = "  " ++ line.statement ++ "\n" := by
    rw [List.map_singleton, linesText_cons, linesText_nil, String.append_empty]
  have hstatement := (hown.after Fragment.statementStart.emits.scans).before ";"
  rw [htext]
  exact (hstatement.after Fragment.indent.emits.scans).before "\n"

theorem keptBetween_single
    {line : Line SectionRef} {own : List Occurrence} (hown : Keeps options line.code own) :
    KeptBetween options own ([line], []) := by
  have hline := keptBetween_line hown fun number => (Keeps.nil : Keeps options
    (childrenText options.strict number []) [])
  rwa [List.append_nil] at hline

theorem keeps_orEmpty {code : String} {os : List Occurrence} (h : Keeps options code os) :
    Keeps options (orEmpty code) os :=
  (h.after Fragment.stackStart.emits.scans).before _

theorem keeps_mustache
    {shown : Shown} {os : List Occurrence} (h : Keeps options shown.code os) (escaped : Bool)
    (tag : Span) :
    Keeps options (Line.mustache escaped shown tag).code os := by
  cases escaped with
  | true => exact (h.after Fragment.escape.emits.scans).before ")"
  | false => exact keeps_orEmpty h

/-- A section keeps its calls in its function and in those of the sections inside it. -/
theorem KeptBetween.function
    {os : List Occurrence} {lines : List (Line SectionRef)} {fs : List Function}
    (h : KeptBetween options os (lines, fs)) (number : Nat) :
    Keeps options (childrenText options.strict number ({ lines } :: fs)) os := by
  obtain ⟨own, inner, hperm, hown, hinner⟩ := h
  have hlead : Scans ("," ++ quoted (toString number) ++ ":" ++ Function.opening options.strict) :=
    ((Fragment.comma.emits.scans.append (emitsWhole_quoted _).scans).append
      Fragment.colon.emits.scans).append (Function.emits_opening options.strict).scans
  have hscan := (hlead.append (Function.emits_lines lines).scans).append Fragment.closing.emits.scans
  have htext : childrenText options.strict number ({ lines } :: fs) =
      "," ++ quoted (toString number) ++ ":" ++ Function.opening options.strict ++
        linesText (lines.map ("  " ++ ·.statement)) ++ closingLines ++
          childrenText options.strict (number + 1) fs := by
    simp only [childrenText_cons, Function.code, String.append_assoc]
  rw [htext]
  exact (((hown.after hlead).before closingLines).append hscan (hinner (number + 1))).perm hperm

mutual

theorem keeps_compileSection (honly : options.knownHelpersOnly = true) :
    ∀ (scopes : Scopes) (p : Program) (s : Section) (n number : Nat),
      (compileSection options scopes p).result = .ok s →
        Keeps options (childrenText options.strict number (numberSection n s).2)
          (p.occurrences scopes)
  | scopes, { body, blockParams }, s, n, number, h => by
      obtain ⟨lines, hlines, h⟩ := Reporting.exists_of_bind h
      cases h
      exact (keptBetween_compileLines honly (blockParams :: scopes) body lines (n + 1)
        hlines).function number

theorem keptBetween_compileLines (honly : options.knownHelpersOnly = true) :
    ∀ (scopes : Scopes) (body : List Statement) (lines : List (Line Section)) (n : Nat),
      (compileLines options scopes body).result = .ok lines →
        KeptBetween options (bodyOccurrences scopes body) (numberLines n lines)
  | scopes, [], lines, n, h => by
      cases h
      exact keptBetween_nil
  | scopes, s :: rest, lines, n, h => by
      obtain ⟨line?, later, rfl, hline, hlater⟩ := exists_of_compileLines_cons h
      rw [numberLines_append]
      exact (keptBetween_compileStatement honly scopes s line? n hline).append
        (keptBetween_compileLines honly scopes rest later _ hlater)

theorem keptBetween_compileStatement (honly : options.knownHelpersOnly = true) :
    ∀ (scopes : Scopes) (s : Statement) (line? : Option (Line Section)) (n : Nat),
      (compileStatement options scopes s).result = .ok line? →
        KeptBetween options (s.occurrences scopes) (numberLines n line?.toList)
  | scopes, .content text, line?, n, h => by
      cases h
      cases htext : text.isEmpty with
      | true => exact keptBetween_nil
      | false => exact keptBetween_line .nil fun _ => .nil
  | scopes, .comment text, line?, n, h => by
      cases h
      exact keptBetween_nil
  | scopes, .mustache call escaped tag, line?, n, h => by
      obtain ⟨shown, hshown, h⟩ := Reporting.exists_of_bind h
      cases h
      exact keptBetween_single (keeps_mustache (keeps_compileMustache honly hshown) _ tag)
  | scopes, .inclusion name context hash tag, line?, n, h => by
      obtain ⟨-, -, h⟩ := Reporting.exists_of_bind h
      obtain ⟨value, hvalue, h⟩ := Reporting.exists_of_bind h
      obtain ⟨fields, hfields, h⟩ := Reporting.exists_of_bind h
      cases h
      refine keptBetween_single (keeps_orEmpty ?_)
      exact keeps_inclusionText (keeps_compileContext honly hvalue)
        (keeps_compileHash honly hash fields hfields)
  | scopes, .block call main inverse tag, line?, n, h => by
      obtain ⟨opening, hopening, h⟩ := Reporting.exists_of_bind h
      obtain ⟨section', hmain, h⟩ := Reporting.exists_of_bind h
      obtain ⟨other, hother, h⟩ := Reporting.exists_of_bind h
      cases h
      refine keptBetween_line (keeps_orEmpty (keeps_compileOpening honly hopening _)) fun number => ?_
      rw [List.append_nil, childrenText_append]
      exact (keeps_compileSection honly scopes main section' n number hmain).append
        (emits_childrenText _ number _).scans
        (keeps_compileInverse honly scopes inverse other _ _ hother)

theorem keeps_compileInverse (honly : options.knownHelpersOnly = true) :
    ∀ (scopes : Scopes) (inverse : Option Program) (other : Option Section) (n number : Nat),
      (compileInverse options scopes inverse).result = .ok other →
        Keeps options (childrenText options.strict number (numberInverse n other).2)
          (inverseOccurrences scopes inverse)
  | scopes, none, other, n, number, h => .nil
  | scopes, some p, other, n, number, h => by
      obtain ⟨s, hs, h⟩ := Reporting.exists_of_bind h
      cases h
      exact keeps_compileSection honly scopes p s n number hs

end

/-! ## Templates -/

theorem scans_heading : Scans Layout.heading := by
  have hscan : (scan Layout.heading.toList).isSome = true := by decide +kernel
  exact hscan

/-- The main function is written as a section is, and is followed by the others. -/
theorem KeptBetween.layout
    {os : List Occurrence} {names : List String} {lines : List (Line Section)}
    (h : KeptBetween options os (numberLines 1 lines)) :
    Keeps options ((Section.mk names lines).layout.code options.strict) os := by
  obtain ⟨own, inner, hperm, hown, hinner⟩ := h
  have hopening : Scans (Layout.heading ++ Function.opening options.strict) :=
    scans_heading.append (Function.emits_opening options.strict).scans
  have hscan := (hopening.append (Function.emits_lines (numberLines 1 lines).1).scans).append
    Fragment.closing.emits.scans
  have hfunctions := (((hown.after hopening).before closingLines).append hscan (hinner 1)).before
    ((Section.mk names lines).layout.flagsText ++ "\x7d")
  have htext : (Section.mk names lines).layout.code options.strict =
      Layout.heading ++ Function.opening options.strict ++
        linesText ((numberLines 1 lines).1.map ("  " ++ ·.statement)) ++ closingLines ++
          childrenText options.strict 1 (numberLines 1 lines).2 ++
            ((Section.mk names lines).layout.flagsText ++ "\x7d") := by
    simp only [Layout.code, Function.code, Section.layout, Section.lines, String.append_assoc]
  rw [htext]
  exact hfunctions.perm hperm

theorem WrittenAs.exists_name
    {o : Occurrence} {text : String} (h : WrittenAs options o text) :
    ∃ name, o.call.simpleName? = some name ∧
      (options.isKnown name = true ∨ (blockParam? name o.scopes).isSome = true) := by
  cases h with
  | helper hname hscope hknown hparams hfields => exact ⟨_, hname, Or.inl hknown⟩
  | blockParam hname hscope => exact ⟨_, hname, Or.inr (by rw [hscope]; rfl)⟩

end

/-- If only known helpers may be called, the code of a template keeps every call with arguments: as
a call of a known helper with all of them, or as the value of the block parameter that is its head.
With a call of anything else there is no code. -/
theorem code_keepsCalls
    {options : Options} {source : String} {program : Program}
    (honly : options.knownHelpersOnly = true) (hparse : parse source = .ok program) :
    (∀ artifact, (precompile options source).result = .ok artifact →
        Keeps options artifact.code (program.occurrences [])) ∧
      ((∃ o ∈ program.occurrences [], o.hasArguments = true ∧
          ∀ name, o.call.simpleName? = some name →
            options.isKnown name = false ∧ blockParam? name o.scopes = none) →
        ∃ failure, (precompile options source).result = .error failure) := by
  have hkeeps : ∀ artifact, (precompile options source).result = .ok artifact →
      Keeps options artifact.code (program.occurrences []) := by
    intro artifact h
    obtain ⟨lines, hlines, rfl⟩ := exists_lines_of_precompile hparse h
    obtain ⟨body, blockParams⟩ := program
    exact (keptBetween_compileLines honly [blockParams] body lines 1 hlines).layout
  refine ⟨hkeeps, ?_⟩
  rintro ⟨o, ho, harguments, hunknown⟩
  cases hresult : (precompile options source).result with
  | error failure => exact ⟨failure, rfl⟩
  | ok artifact =>
      obtain ⟨starts, -, hos⟩ := hkeeps artifact hresult
      have hkept : o ∈ (program.occurrences []).filter Occurrence.hasArguments :=
        List.mem_filter.mpr ⟨ho, harguments⟩
      obtain ⟨text, hwritten⟩ := exists_writtenAs_of_mem hos hkept
      obtain ⟨name, hname, hknown | hscope⟩ := hwritten.exists_name
      · rw [(hunknown name hname).1] at hknown
        cases hknown
      · rw [(hunknown name hname).2] at hscope
        cases hscope

/-- Options with which only built-in helpers may be called. -/
def builtinOnly : Options :=
  { srcName := none, knownHelpers := [], knownHelpersOnly := true, extra := [] }

/-- A loop around a call in a call, with a block parameter beside them, and a chained
alternative. -/
def loopWithCalls : String :=
  "\x7b\x7b#each rows as |row|\x7d\x7d\x7b\x7blog row (lookup row \"k\") level=1\x7d\x7d" ++
    "\x7b\x7belse if (lookup . 0)\x7d\x7dx\x7b\x7b/each\x7d\x7d"

theorem loopWithCalls_keepsCalls :
    ∃ program, parse loopWithCalls = .ok program ∧
      ((program.occurrences []).filter Occurrence.hasArguments).length = 5 ∧
      builtinOnly.knownHelpersOnly = true ∧
      ∃ artifact, (precompile builtinOnly loopWithCalls).result = .ok artifact ∧
        Keeps builtinOnly artifact.code (program.occurrences []) := by
  obtain ⟨program, hprogram⟩ : ∃ program, parse loopWithCalls = .ok program :=
    exists_ok_of_isOk (by decide +kernel)
  obtain ⟨artifact, hartifact⟩ := exists_ok_of_isOk
    (show (precompile builtinOnly loopWithCalls).result.isOk = true by decide +kernel)
  have hcount : ((parse loopWithCalls).toOption.map fun p =>
      ((p.occurrences []).filter Occurrence.hasArguments).length) = some 5 := by decide +kernel
  rw [hprogram] at hcount
  exact ⟨program, hprogram, Option.some.inj hcount, rfl, artifact, hartifact,
    (code_keepsCalls rfl hprogram).1 artifact hartifact⟩

/-- A loop with a call whose head is its block parameter. -/
def calledParam : String :=
  "\x7b\x7b#each xs as |b|\x7d\x7d\x7b\x7bb 1\x7d\x7d\x7b\x7b/each\x7d\x7d"

/-- A call of a block parameter has no known helper as its head, and yet there is code. -/
theorem calledParam_compiles :
    ∃ program artifact, parse calledParam = .ok program ∧
      (precompile builtinOnly calledParam).result = .ok artifact ∧
      ∃ o ∈ program.occurrences [], o.hasArguments = true ∧ o.call.simpleName? = some "b" ∧
        builtinOnly.isKnown "b" = false := by
  obtain ⟨program, hprogram⟩ : ∃ program, parse calledParam = .ok program :=
    exists_ok_of_isOk (by decide +kernel)
  obtain ⟨artifact, hartifact⟩ := exists_ok_of_isOk
    (show (precompile builtinOnly calledParam).result.isOk = true by decide +kernel)
  have hcalls : ((parse calledParam).toOption.any fun p => (p.occurrences []).any fun o =>
      o.hasArguments && o.call.simpleName? == some "b") = true := by decide +kernel
  rw [hprogram] at hcalls
  obtain ⟨o, ho, hcall⟩ :=
    List.any_eq_true.mp (show (program.occurrences []).any _ = true from hcalls)
  simp only [Bool.and_eq_true, beq_iff_eq] at hcall
  exact ⟨program, artifact, hprogram, hartifact, o, ho, hcall.1, hcall.2, by decide +kernel⟩

end Spec
end TemplateModules
