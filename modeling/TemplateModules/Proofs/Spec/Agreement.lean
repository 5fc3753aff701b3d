import TemplateModules.Config.Basic
import TemplateModules.Proofs.Spec.Compiled
import TemplateModules.Proofs.Spec.Roles

/-!
# What compilation depends on

A template names helpers at the heads of its calls, and partials.  Compilation asks only about
these helpers whether they are known, and reports no other helpers and partials.  So two sets of
options that agree on them give the same result, with the same reports.
-/

namespace TemplateModules

namespace Template

/-- A helper or a partial, by its name. -/
structure Extension where
  kind : ExtensionKind
  name : String
  deriving DecidableEq, Repr

/-- The helper that a head names, if it is a bare name. -/
def headExtensions (head : Expr) : List Extension :=
  match head with
  | .path path => (path.simpleName?.map fun name => { kind := .helper, name }).toList
  | _ => []

mutual

/-- The helpers that the calls in an expression name. -/
def Expr.extensions : Expr → List Extension
  | .path _ => []
  | .literal _ => []
  | .sub call => call.extensions

/-- The helpers that a call and the calls inside it name. -/
def Call.extensions : Call → List Extension
  | { head, params, hash } =>
      headExtensions head ++ head.extensions ++ paramsExtensions params ++ hashExtensions hash

def paramsExtensions : List Expr → List Extension
  | [] => []
  | e :: es => e.extensions ++ paramsExtensions es

def hashExtensions : List (String × Expr) → List Extension
  | [] => []
  | (_, e) :: hash => e.extensions ++ hashExtensions hash

end

def contextExtensions : Option Expr → List Extension
  | none => []
  | some e => e.extensions

mutual

/-- The helpers and partials that a program names, inside its blocks too. -/
def Program.extensions : Program → List Extension
  | { body, .. } => bodyExtensions body

def bodyExtensions : List Statement → List Extension
  | [] => []
  | s :: rest => s.extensions ++ bodyExtensions rest

def Statement.extensions : Statement → List Extension
  | .content _ => []
  | .comment _ => []
  | .mustache call _ _ => call.extensions
  | .block call main inverse _ =>
      call.extensions ++ main.extensions ++ inverseExtensions inverse
  | .inclusion name context hash _ =>
      { kind := .inclusion, name } :: (contextExtensions context ++ hashExtensions hash)

def inverseExtensions : Option Program → List Extension
  | none => []
  | some p => p.extensions

end

/-- The helpers and partials that a source names.  A source that does not parse has none. -/
def extensionsIn (source : String) : List Extension :=
  match parse source with
  | .error _ => []
  | .ok program => program.extensions

theorem mem_extensions_of_simpleName?
    {call : Call} {name : String} (h : call.simpleName? = some name) :
    { kind := .helper, name } ∈ call.extensions := by
  obtain ⟨head, params, hash⟩ := call
  cases head with
  | path path =>
      have hname : path.simpleName? = some name := h
      simp [Call.extensions, headExtensions, hname]
  | literal value => simp [Call.simpleName?] at h
  | sub call => simp [Call.simpleName?] at h

/-- The helpers that the parts of a call name are among those of the call. -/
theorem Call.forall_extensions
    {P : Extension → Prop} {call : Call} (h : ∀ e ∈ call.extensions, P e) :
    (∀ name, call.simpleName? = some name → P { kind := .helper, name }) ∧
      (∀ e ∈ call.head.extensions, P e) ∧ (∀ e ∈ paramsExtensions call.params, P e) ∧
      ∀ e ∈ hashExtensions call.hash, P e := by
  refine ⟨fun name hname => h _ (mem_extensions_of_simpleName? hname), ?_⟩
  obtain ⟨head, params, hash⟩ := call
  simp only [Call.extensions, List.mem_append] at h
  exact ⟨fun e he => h e (by simp [he]), fun e he => h e (by simp [he]),
    fun e he => h e (by simp [he])⟩

end Template

namespace Spec

open Template

/-- The helper or the partial that a lookup reports. -/
def Lookup.extension? (l : Lookup) : Option Extension :=
  match l.kind with
  | .helper => some { kind := .helper, name := l.name }
  | .inclusion => some { kind := .inclusion, name := l.name }
  | .context => none
  | .data => none

/-- Two sets of options that compile alike what names only certain helpers. -/
structure Options.Agree (P : Extension → Prop) (o o' : Options) : Prop where
  isKnown : ∀ name, P { kind := .helper, name } → o.isKnown name = o'.isKnown name
  only : o.knownHelpersOnly = o'.knownHelpersOnly
  noEscape : o.noEscape = o'.noEscape

/-- Two compilations that are the same, and that report only certain helpers and partials. -/
structure Agrees {α : Type} (P : Extension → Prop) (x y : Reporting α) : Prop where
  eq : x = y
  named : ∀ l ∈ x.lookups, ∀ e, l.extension? = some e → P e

namespace Agrees

variable {α β : Type} {P : Extension → Prop}

protected theorem pure (a : α) : Agrees P (pure a) (pure a) where
  eq := rfl
  named := by
    intro l hl
    cases hl

protected theorem fail {cause : Cause} {span : Span} :
    Agrees P (.fail cause span : Reporting α) (.fail cause span) where
  eq := rfl
  named := by
    intro l hl
    cases hl

protected theorem report
    {name : String} {kind : LookupKind} {tag : Span}
    (h : ∀ e, Lookup.extension? { name, kind, tag } = some e → P e) :
    Agrees P (.report name kind tag) (.report name kind tag) where
  eq := rfl
  named := by
    intro l hl
    rw [List.mem_singleton.mp hl]
    exact h

protected theorem bind
    {x y : Reporting α} {f g : α → Reporting β}
    (hx : Agrees P x y) (hf : ∀ a, Agrees P (f a) (g a)) :
    Agrees P (x >>= f) (y >>= g) where
  eq := by
    have hfg : f = g := funext fun a => (hf a).eq
    rw [hx.eq, hfg]
  named := by
    intro l hl
    cases hresult : x.result with
    | error e =>
        have hlookups : (x >>= f).lookups = x.lookups := by
          simp [Bind.bind, Reporting.bind, hresult]
        exact hx.named l (hlookups ▸ hl)
    | ok a =>
        have hlookups : (x >>= f).lookups = x.lookups ++ (f a).lookups := by
          simp [Bind.bind, Reporting.bind, hresult]
        rw [hlookups] at hl
        rcases List.mem_append.mp hl with hl | hl
        · exact hx.named l hl
        · exact (hf a).named l hl

theorem report_helper {name : String} {tag : Span} (h : P { kind := .helper, name }) :
    Agrees P (.report name .helper tag) (.report name .helper tag) :=
  .report fun e he => by
    rw [← Option.some.inj he]
    exact h

theorem report_inclusion {name : String} {tag : Span} (h : P { kind := .inclusion, name }) :
    Agrees P (.report name .inclusion tag) (.report name .inclusion tag) :=
  .report fun e he => by
    rw [← Option.some.inj he]
    exact h

end Agrees

/-! ## Expressions -/

section

variable {P : Extension → Prop} (scopes : Scopes) (tag : Span)

theorem agrees_reportFirst
    (path : Path) {kind : LookupKind} (hkind : kind = .context ∨ kind = .data) :
    Agrees P (reportFirst path kind tag) (reportFirst path kind tag) := by
  unfold reportFirst
  split
  · exact .pure ()
  · rcases hkind with rfl | rfl
    · exact .report (by simp [Lookup.extension?])
    · exact .report (by simp [Lookup.extension?])

theorem agrees_compilePath (path : Path) :
    Agrees P (compilePath scopes path tag) (compilePath scopes path tag) := by
  unfold compilePath
  split
  · split
    · exact .fail
    · exact .bind (agrees_reportFirst tag path (Or.inr rfl)) fun _ => .pure _
  · split
    · exact .pure _
    · exact .bind (agrees_reportFirst tag path (Or.inl rfl)) fun _ => .pure _

theorem agrees_refuseUnknown {α : Type} (call : Call) :
    Agrees P (refuseUnknown call tag : Reporting α) (refuseUnknown call tag) := by
  unfold refuseUnknown
  split
  · exact .fail
  · exact .fail

end

variable {P : Extension → Prop} {o o' : Options}

mutual

theorem agrees_compileValue (ho : o.Agree P o') (scopes : Scopes) (tag : Span) :
    ∀ e : Expr, (∀ x ∈ e.extensions, P x) →
      Agrees P (compileValue o scopes tag e) (compileValue o' scopes tag e)
  | .literal value, _ => .pure _
  | .path path, _ => .bind (agrees_compilePath scopes tag path) fun _ => .pure _
  | .sub call, h => agrees_compileSub ho scopes tag call (by simpa [Expr.extensions] using h)

theorem agrees_compileSub (ho : o.Agree P o') (scopes : Scopes) (tag : Span) :
    ∀ call : Call, (∀ x ∈ call.extensions, P x) →
      Agrees P (compileSub o scopes tag call) (compileSub o' scopes tag call)
  | { head, params, hash }, h => by
      obtain ⟨hname, -, hparams, hhash⟩ := Call.forall_extensions h
      unfold compileSub
      split
      · next path _ =>
        exact .bind (agrees_compilePath scopes tag path) fun _ => .pure _
      · split
        · exact .fail
        · next name hsimple =>
          simp only [ho.isKnown name (hname name hsimple), ho.only]
          split
          · exact agrees_refuseUnknown tag _
          · refine .bind (.report_helper (hname name hsimple)) fun _ => ?_
            refine .bind (agrees_compileValues ho scopes tag params hparams) fun _ => ?_
            exact .bind (agrees_compileHash ho scopes tag hash hhash) fun _ => .pure _

theorem agrees_compileValues (ho : o.Agree P o') (scopes : Scopes) (tag : Span) :
    ∀ es : List Expr, (∀ x ∈ paramsExtensions es, P x) →
      Agrees P (compileValues o scopes tag es) (compileValues o' scopes tag es)
  | [], _ => .pure _
  | e :: es, h => by
      simp only [paramsExtensions, List.forall_mem_append] at h
      refine .bind (agrees_compileValue ho scopes tag e h.1) fun _ => ?_
      exact .bind (agrees_compileValues ho scopes tag es h.2) fun _ => .pure _

theorem agrees_compileHash (ho : o.Agree P o') (scopes : Scopes) (tag : Span) :
    ∀ hash : List (String × Expr), (∀ x ∈ hashExtensions hash, P x) →
      Agrees P (compileHash o scopes tag hash) (compileHash o' scopes tag hash)
  | [], _ => .pure _
  | (key, e) :: hash, h => by
      simp only [hashExtensions, List.forall_mem_append] at h
      refine .bind (agrees_compileValue ho scopes tag e h.1) fun _ => ?_
      exact .bind (agrees_compileHash ho scopes tag hash h.2) fun _ => .pure _

end

/-! ## Statements -/

section

variable (ho : o.Agree P o') (scopes : Scopes) (tag : Span)
include ho

theorem agrees_compileHelper
    {name : String} (known : Bool) {call : Call}
    (hname : P { kind := .helper, name }) (hparams : ∀ x ∈ paramsExtensions call.params, P x)
    (hhash : ∀ x ∈ hashExtensions call.hash, P x) :
    Agrees P (compileHelper o scopes tag name known call)
      (compileHelper o' scopes tag name known call) := by
  refine .bind (.report_helper hname) fun _ => ?_
  refine .bind (agrees_compileValues ho scopes tag _ hparams) fun _ => ?_
  exact .bind (agrees_compileHash ho scopes tag _ hhash) fun _ => .pure _

theorem agrees_outcomes
    {α : Type} (outcomes : Outcomes α) {call : Call} {role : Role} {plain plain' : Reporting α}
    (h : ∀ x ∈ call.extensions, P x) (hplays : Plays o scopes call role)
    (hplain : Agrees P plain plain') :
    Agrees P (outcomes.compile o scopes tag call plain role)
      (outcomes.compile o' scopes tag call plain' role) := by
  obtain ⟨hname, -, hparams, hhash⟩ := Call.forall_extensions h
  have hpath (path : Path) :
      Agrees P (do return outcomes.value path (← compilePath scopes path tag))
        (do return outcomes.value path (← compilePath scopes path tag)) :=
    .bind (agrees_compilePath scopes tag path) fun _ => .pure _
  cases hplays with
  | param => exact hpath _
  | helper hfree hsimple =>
      exact .bind (agrees_compileHelper ho scopes tag _ (hname _ hsimple) hparams hhash)
        fun _ => .pure _
  | field => exact hpath _
  | @either name path hfree hhead hsimple =>
      have hcall : call.simpleName? = some name := by
        rw [Call.simpleName?, hhead]
        exact hsimple
      refine .bind (.report_helper (hname name hcall)) fun _ => ?_
      exact .bind (agrees_compilePath scopes tag _) fun _ => .pure _
  | plain => exact hplain
  | refused => exact .fail

theorem agrees_compileMustache {call : Call} (h : ∀ x ∈ call.extensions, P x) :
    Agrees P (compileMustache o scopes tag call) (compileMustache o' scopes tag call) := by
  obtain ⟨hname, hhead, -, -⟩ := Call.forall_extensions h
  have hknown := fun name hsimple => ho.isKnown name (hname name hsimple)
  rw [compileMustache_eq, compileMustache_eq, ← mustacheRole_congr ho.only hknown]
  apply agrees_outcomes ho scopes tag _ h plays_mustacheRole
  exact .bind (agrees_compileValue ho scopes tag _ hhead) fun _ => .pure _

theorem agrees_compileOpening {call : Call} (h : ∀ x ∈ call.extensions, P x) :
    Agrees P (compileOpening o scopes tag call) (compileOpening o' scopes tag call) := by
  obtain ⟨hname, -, -, -⟩ := Call.forall_extensions h
  have hknown := fun name hsimple => ho.isKnown name (hname name hsimple)
  rw [compileOpening_eq, compileOpening_eq, ← openingRole_congr ho.only hknown]
  exact agrees_outcomes ho scopes tag _ h plays_openingRole .fail

theorem agrees_compileContext
    {context : Option Expr} (h : ∀ x ∈ contextExtensions context, P x) :
    Agrees P (compileContext o scopes tag context) (compileContext o' scopes tag context) := by
  cases context with
  | none => exact .pure _
  | some e => exact .bind (agrees_compileValue ho scopes tag e h) fun _ => .pure _

end

/-! ## Programs -/

mutual

theorem agrees_compileSection (ho : o.Agree P o') (scopes : Scopes) :
    ∀ p : Program, (∀ x ∈ p.extensions, P x) →
      Agrees P (compileSection o scopes p) (compileSection o' scopes p)
  | { body, blockParams }, h =>
      .bind
        (agrees_compileLines ho (blockParams :: scopes) body
          (by simpa [Program.extensions] using h))
        fun _ => .pure _

theorem agrees_compileLines (ho : o.Agree P o') (scopes : Scopes) :
    ∀ body : List Statement, (∀ x ∈ bodyExtensions body, P x) →
      Agrees P (compileLines o scopes body) (compileLines o' scopes body)
  | [], _ => .pure _
  | s :: rest, h => by
      simp only [bodyExtensions, List.forall_mem_append] at h
      refine .bind (agrees_compileStatement ho scopes s h.1) fun _ => ?_
      exact .bind (agrees_compileLines ho scopes rest h.2) fun _ => .pure _

theorem agrees_compileStatement (ho : o.Agree P o') (scopes : Scopes) :
    ∀ s : Statement, (∀ x ∈ s.extensions, P x) →
      Agrees P (compileStatement o scopes s) (compileStatement o' scopes s)
  | .content _, _ => .pure _
  | .comment _, _ => .pure _
  | .mustache call escaped tag, h => by
      simp only [Statement.extensions] at h
      unfold compileStatement
      rw [ho.noEscape]
      exact .bind (agrees_compileMustache ho scopes tag h) fun _ => .pure _
  | .block call main inverse tag, h => by
      simp only [Statement.extensions, List.forall_mem_append] at h
      obtain ⟨⟨hcall, hmain⟩, hinverse⟩ := h
      refine .bind (agrees_compileOpening ho scopes tag hcall) fun _ => ?_
      refine .bind (agrees_compileSection ho scopes main hmain) fun _ => ?_
      exact .bind (agrees_compileInverse ho scopes inverse hinverse) fun _ => .pure _
  | .inclusion name context hash tag, h => by
      simp only [Statement.extensions, List.forall_mem_cons, List.forall_mem_append] at h
      obtain ⟨hname, hcontext, hhash⟩ := h
      refine .bind (.report_inclusion hname) fun _ => ?_
      refine .bind (agrees_compileContext ho scopes tag hcontext) fun _ => ?_
      exact .bind (agrees_compileHash ho scopes tag hash hhash) fun _ => .pure _

theorem agrees_compileInverse (ho : o.Agree P o') (scopes : Scopes) :
    ∀ inverse : Option Program, (∀ x ∈ inverseExtensions inverse, P x) →
      Agrees P (compileInverse o scopes inverse) (compileInverse o' scopes inverse)
  | none, _ => .pure _
  | some p, h => .bind (agrees_compileSection ho scopes p h) fun _ => .pure _

end

/-- The artifact of a section depends on three further options. -/
theorem artifact_congr
    {source : String} {main : Section}
    (hname : o.srcName = o'.srcName) (hstrict : o.strict = o'.strict)
    (hmap : o.sourceMap = o'.sourceMap) :
    artifact o source main = artifact o' source main := by
  simp only [artifact, sourceMap, hname, hstrict, hmap]

/-- Options that agree on what a source names compile it alike. -/
theorem precompile_congr
    {source : String} (ho : o.Agree (· ∈ extensionsIn source) o')
    (hname : o.srcName = o'.srcName) (hstrict : o.strict = o'.strict)
    (hmap : o.sourceMap = o'.sourceMap) :
    precompile o source = precompile o' source := by
  cases hparse : parse source with
  | error f => simp [precompile, hparse]
  | ok program =>
      have hnames : extensionsIn source = program.extensions := by simp [extensionsIn, hparse]
      have hagrees := agrees_compileSection ho [] program fun x hx => hnames ▸ hx
      simp only [precompile, hparse, hagrees.eq, artifact_congr hname hstrict hmap]

/-- Compilation reports no helpers and partials but those that the source names. -/
theorem mem_extensionsIn_of_precompile
    {source : String} {l : Lookup} {e : Extension}
    (hl : l ∈ (precompile o source).lookups) (he : l.extension? = some e) :
    e ∈ extensionsIn source := by
  cases hparse : parse source with
  | error f => simp [precompile, hparse] at hl
  | ok program =>
      have hnames : extensionsIn source = program.extensions := by simp [extensionsIn, hparse]
      have ho : o.Agree (· ∈ extensionsIn source) o := ⟨fun _ _ => rfl, rfl, rfl⟩
      have hagrees := agrees_compileSection ho [] program fun x hx => hnames ▸ hx
      exact hagrees.named l (by simpa [precompile, hparse] using hl) e he

end Spec
end TemplateModules
