import TemplateModules.Proofs.Spec.Emitted
import TemplateModules.Proofs.Spec.Roles
import TemplateModules.Spec.Artifact

/-!
# What compilation reports is what its code mentions

Compilation reports a helper or a partial each time that it writes a mention of one, in the same
order.  `Reports` says this of a compilation that goes on from mentions that were reported before,
so that it follows the sequence of a `do` block.  It also says which helpers can be reported: if
only known helpers may be called, no other one is.
-/

namespace TemplateModules
namespace Spec

open Template

/-- The mention that a lookup of a helper or of a partial stands for. -/
def Lookup.mention? (l : Lookup) : Option Mention :=
  match l.kind with
  | .helper => some (.helper l.name)
  | .inclusion => some (.inclusion l.name)
  | .context => none
  | .data => none

namespace Mention

/-- Whether a mention is one of a helper or of a partial. -/
def isNamed : Mention → Bool
  | helper _ => true
  | inclusion _ => true
  | _ => false

end Mention

/-- The mentions of helpers and partials in a list. -/
def named (ms : List Mention) : List Mention :=
  ms.filter Mention.isNamed

@[simp]
theorem named_nil : named [] = [] := rfl

@[simp]
theorem named_append (ms ns : List Mention) : named (ms ++ ns) = named ms ++ named ns :=
  List.filter_append ..

@[simp]
theorem named_helper_cons (name : String) (ms : List Mention) :
    named (.helper name :: ms) = .helper name :: named ms := rfl

@[simp]
theorem named_inclusion_cons (name : String) (ms : List Mention) :
    named (.inclusion name :: ms) = .inclusion name :: named ms := rfl

@[simp]
theorem named_invocation_cons (ms : List Mention) : named (.invocation :: ms) = named ms := rfl

@[simp]
theorem named_root (root : Root) : named root.mentions = [] := by
  cases root <;> rfl

/-- The mentions that lookups stand for. -/
def reported (lookups : List Lookup) : List Mention :=
  lookups.filterMap Lookup.mention?

/-- Whether a lookup is allowed by the options: unless others may be called, it is not one of an
unknown helper. -/
def Options.Allows (options : Options) (l : Lookup) : Prop :=
  l.kind = .helper → options.isKnown l.name = true ∨ options.knownHelpersOnly = false

/-- A compilation reports allowed names only.  If it succeeds, then those reported `before` and its
own are the helpers and partials that its result mentions. -/
structure Reports {α : Type}
    (options : Options) (before : List Mention)
    (x : Reporting α) (mentions : α → List Mention) : Prop where
  allowed : ∀ l ∈ x.lookups, options.Allows l
  reported_eq : ∀ a, x.result = .ok a → before ++ reported x.lookups = named (mentions a)

namespace Reports

variable {α β : Type} {options : Options} {before : List Mention}

protected theorem pure
    {a : α} {mentions : α → List Mention}
    (h : before = named (mentions a)) :
    Reports options before (pure a) mentions where
  allowed := by
    intro l hl
    cases hl
  reported_eq := by
    intro b hb
    cases hb
    simpa [Pure.pure, Reporting.pure, reported] using h

protected theorem fail {cause : Cause} {span : Span} {mentions : α → List Mention} :
    Reports options before (.fail cause span) mentions where
  allowed := by
    intro l hl
    cases hl
  reported_eq := by
    intro a ha
    cases ha

protected theorem bind
    {x : Reporting α} {f : α → Reporting β}
    {first : α → List Mention} {mentions : β → List Mention}
    (hx : Reports options [] x first)
    (hf : ∀ a, Reports options (before ++ named (first a)) (f a) mentions) :
    Reports options before (x >>= f) mentions := by
  cases hresult : x.result with
  | error e =>
      have hbind : x >>= f = { lookups := x.lookups, result := .error e } := by
        simp [Bind.bind, Reporting.bind, hresult]
      rw [hbind]
      exact ⟨hx.allowed, fun b hb => by cases hb⟩
  | ok a =>
      have hbind : x >>= f =
          { lookups := x.lookups ++ (f a).lookups, result := (f a).result } := by
        simp [Bind.bind, Reporting.bind, hresult]
      rw [hbind]
      constructor
      · intro l hl
        rcases List.mem_append.mp hl with hl | hl
        · exact hx.allowed l hl
        · exact (hf a).allowed l hl
      · intro b hb
        have hfirst := hx.reported_eq a hresult
        have hrest := (hf a).reported_eq b hb
        rw [List.nil_append] at hfirst
        rw [← hrest, ← hfirst]
        simp [reported]

theorem report
    {name : String} {kind : LookupKind} {tag : Span}
    (hallowed : kind = .helper → options.isKnown name = true ∨ options.knownHelpersOnly = false) :
    Reports options [] (.report name kind tag)
      (fun _ => (Lookup.mention? { name, kind, tag }).toList) where
  allowed := by
    intro l hl
    rw [List.mem_singleton.mp hl]
    exact hallowed
  reported_eq := by
    intro _ _
    cases kind <;> rfl

end Reports

/-! ## Expressions -/

section

variable {options : Options} (scopes : Scopes) (tag : Span)

theorem reports_reportFirst
    {path : Path} {kind : LookupKind} (hkind : kind = .context ∨ kind = .data) :
    Reports options [] (reportFirst path kind tag) (fun _ => []) := by
  unfold reportFirst
  cases path.parts with
  | nil => exact .pure rfl
  | cons name parts =>
      rcases hkind with rfl | rfl
      · exact .report (by simp)
      · exact .report (by simp)

/-- Paths report neither helpers nor partials. -/
theorem reports_compilePath (path : Path) :
    Reports options [] (compilePath scopes path tag) (fun access => access.root.mentions) := by
  unfold compilePath
  split
  · split
    · exact .fail
    · exact .bind (reports_reportFirst tag (Or.inr rfl)) fun _ => .pure rfl
  · split
    · exact .pure rfl
    · exact .bind (reports_reportFirst tag (Or.inl rfl)) fun _ => .pure (by simp)

theorem reports_refuseUnknown {α : Type} {before : List Mention} {mentions : α → List Mention}
    (call : Call) :
    Reports options before (refuseUnknown call tag) mentions := by
  unfold refuseUnknown
  split <;> exact .fail

end

/-- A call that is not refused may be one of a helper. -/
theorem Options.callable_of_not_refused
    {options : Options} {name : String}
    (h : ¬(!options.isKnown name && options.knownHelpersOnly) = true) :
    options.isKnown name = true ∨ options.knownHelpersOnly = false := by
  cases hknown : options.isKnown name <;> simp_all

mutual

theorem reports_compileValue (options : Options) (scopes : Scopes) (tag : Span) :
    ∀ e : Expr, Reports options [] (compileValue options scopes tag e) Value.mentions
  | .literal value => .pure (by simp [Value.mentions])
  | .path path =>
      .bind (reports_compilePath scopes tag path) fun access => .pure (by simp [Value.mentions])
  | .sub call => reports_compileSub options scopes tag call

theorem reports_compileSub (options : Options) (scopes : Scopes) (tag : Span) :
    ∀ call : Call, Reports options [] (compileSub options scopes tag call) Value.mentions
  | { head, params, hash } => by
      unfold compileSub
      split
      · next path _ =>
        exact .bind (reports_compilePath scopes tag path) fun access =>
          .pure (by simp [Value.mentions])
      · split
        · exact .fail
        · next name _ =>
          simp only
          split
          · exact reports_refuseUnknown tag _
          · next hcallable =>
            refine .bind (.report fun _ => Options.callable_of_not_refused hcallable) fun _ => ?_
            refine .bind (reports_compileValues options scopes tag params) fun vs => ?_
            refine .bind (reports_compileHash options scopes tag hash) fun fields => .pure ?_
            simp [Value.mentions, HelperCall.mentions, Lookup.mention?]

theorem reports_compileValues (options : Options) (scopes : Scopes) (tag : Span) :
    ∀ es : List Expr, Reports options [] (compileValues options scopes tag es) valuesMentions
  | [] => .pure rfl
  | e :: es => by
      refine .bind (reports_compileValue options scopes tag e) fun v => ?_
      refine .bind (reports_compileValues options scopes tag es) fun vs => .pure ?_
      simp [valuesMentions]

theorem reports_compileHash (options : Options) (scopes : Scopes) (tag : Span) :
    ∀ hash : List (String × Expr),
      Reports options [] (compileHash options scopes tag hash) hashMentions
  | [] => .pure rfl
  | (key, e) :: hash => by
      refine .bind (reports_compileValue options scopes tag e) fun v => ?_
      refine .bind (reports_compileHash options scopes tag hash) fun fields => .pure ?_
      simp [hashMentions]

end

/-! ## Statements -/

variable {options : Options} (scopes : Scopes) (tag : Span)

theorem reports_compileHelper
    {name : String} (known : Bool) (call : Call)
    (hallowed : options.isKnown name = true ∨ options.knownHelpersOnly = false) :
    Reports options [] (compileHelper options scopes tag name known call) HelperCall.mentions := by
  refine .bind (.report fun _ => hallowed) fun _ => ?_
  refine .bind (reports_compileValues options scopes tag call.params) fun vs => ?_
  refine .bind (reports_compileHash options scopes tag call.hash) fun fields => .pure ?_
  simp [HelperCall.mentions, Lookup.mention?]

/-- If the outcome of a call mentions just what it is made of, then the call reports what is
mentioned. -/
theorem reports_outcomes
    {α : Type} {outcomes : Outcomes α} {mentions : α → List Mention} {call : Call} {role : Role}
    {plain : Reporting α} (hplays : Plays options scopes call role)
    (hhelper : ∀ compiled, mentions (outcomes.helper compiled) = compiled.mentions)
    (hvalue : ∀ path access, mentions (outcomes.value path access) = access.root.mentions)
    (heither : ∀ name path access,
      mentions (outcomes.either name path access) = .helper name :: access.root.mentions)
    (hplain : Reports options [] plain mentions) :
    Reports options [] (outcomes.compile options scopes tag call plain role) mentions := by
  have hpath (path : Path) :
      Reports options [] (do return outcomes.value path (← compilePath scopes path tag)) mentions :=
    .bind (reports_compilePath scopes tag path) fun access => .pure (by simp [hvalue])
  cases hplays with
  | param => exact hpath _
  | helper hfree hname hcalled =>
      exact .bind (reports_compileHelper scopes tag _ call (hcalled.imp_right And.right))
        fun compiled => .pure (by simp [hhelper])
  | field => exact hpath _
  | either hfree hhead hname hunknown harguments hopen =>
      refine .bind (.report fun _ => Or.inr hopen) fun _ => ?_
      refine .bind (reports_compilePath scopes tag _) fun access => .pure ?_
      simp [heither, Lookup.mention?]
  | plain => exact hplain
  | refused => exact .fail

theorem reports_compileMustache (call : Call) :
    Reports options [] (compileMustache options scopes tag call) Shown.mentions := by
  rw [compileMustache_eq]
  refine reports_outcomes scopes tag plays_mustacheRole ?_ (fun _ _ => rfl) (fun _ _ _ => rfl) ?_
  · intro compiled
    simp [mustacheOutcomes, Shown.mentions, Value.mentions]
  · exact .bind (reports_compileValue options scopes tag call.head) fun v =>
      .pure (by simp [Shown.mentions])

theorem reports_compileOpening (call : Call) :
    Reports options [] (compileOpening options scopes tag call) Opening.mentions := by
  rw [compileOpening_eq]
  exact reports_outcomes scopes tag plays_openingRole (fun _ => rfl) (fun _ _ => rfl)
    (fun _ _ _ => rfl) .fail

theorem reports_compileContext (context : Option Expr) :
    Reports options [] (compileContext options scopes tag context) contextMentions := by
  cases context with
  | none => exact .pure rfl
  | some e =>
      exact .bind (reports_compileValue options scopes tag e) fun v =>
        .pure (by simp [contextMentions])

/-! ## Programs -/

mutual

/-- The mentions of a section and of all sections inside it. -/
def Section.mentions : Section → List Mention
  | .mk _ lines => linesMentions lines

/-- The mentions of lines and of all sections inside them. -/
def linesMentions : List (Line Section) → List Mention
  | [] => []
  | line :: lines => lineMentions line ++ linesMentions lines

/-- The mentions of a line and of all sections inside it. -/
def lineMentions : Line Section → List Mention
  | .text _ => []
  | .mustache _ shown _ => shown.mentions
  | .block opening main inverse _ => opening.mentions ++ main.mentions ++ inverseMentions inverse
  | .inclusion name context hash _ =>
      .invocation :: .inclusion name :: (contextMentions context ++ hashMentions hash)

/-- The mentions of an inverse section, if there is one. -/
def inverseMentions : Option Section → List Mention
  | none => []
  | some inverse => inverse.mentions

end

theorem linesMentions_append (xs ys : List (Line Section)) :
    linesMentions (xs ++ ys) = linesMentions xs ++ linesMentions ys := by
  induction xs with
  | nil => rfl
  | cons x xs ih => simp [linesMentions, ih]

mutual

theorem reports_compileSection (options : Options) (scopes : Scopes) :
    ∀ p : Program, Reports options [] (compileSection options scopes p) Section.mentions
  | { body, blockParams } =>
      .bind (reports_compileLines options (blockParams :: scopes) body) fun lines =>
        .pure (by simp [Section.mentions])

theorem reports_compileLines (options : Options) (scopes : Scopes) :
    ∀ body : List Statement, Reports options [] (compileLines options scopes body) linesMentions
  | [] => .pure rfl
  | s :: rest => by
      refine .bind (reports_compileStatement options scopes s) fun line => ?_
      refine .bind (reports_compileLines options scopes rest) fun lines => .pure ?_
      simp [linesMentions_append]

theorem reports_compileStatement (options : Options) (scopes : Scopes) :
    ∀ s : Statement,
      Reports options [] (compileStatement options scopes s) fun line => linesMentions line.toList
  | .content text => .pure (by split <;> rfl)
  | .comment _ => .pure rfl
  | .mustache call escaped tag =>
      .bind (reports_compileMustache scopes tag call) fun shown =>
        .pure (by simp [linesMentions, lineMentions])
  | .block call main inverse tag => by
      refine .bind (reports_compileOpening scopes tag call) fun opening => ?_
      refine .bind (reports_compileSection options scopes main) fun section' => ?_
      refine .bind (reports_compileInverse options scopes inverse) fun other => .pure ?_
      simp [linesMentions, lineMentions]
  | .inclusion name context hash tag => by
      refine .bind (.report (by simp)) fun _ => ?_
      refine .bind (reports_compileContext scopes tag context) fun value => ?_
      refine .bind (reports_compileHash options scopes tag hash) fun fields => .pure ?_
      simp [linesMentions, lineMentions, Lookup.mention?]

theorem reports_compileInverse (options : Options) (scopes : Scopes) :
    ∀ inverse : Option Program,
      Reports options [] (compileInverse options scopes inverse) inverseMentions
  | none => .pure rfl
  | some p =>
      .bind (reports_compileSection options scopes p) fun section' =>
        .pure (by simp [inverseMentions])

end

end Spec
end TemplateModules
