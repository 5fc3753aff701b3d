import Mathlib.Data.List.Forall2
import TemplateModules.Proofs.Spec.Accesses
import TemplateModules.Proofs.Spec.Calls
import TemplateModules.Proofs.Spec.Functions
import TemplateModules.Proofs.Template.Spans

/-!
# What a template uses

A template uses values of paths, helpers and partials.  Which ones a statement uses is read off its
tree; only the options and the names in scope matter besides.  Compiling a statement reports the
names that it uses and no others, and reads the values of its paths in the order in which they are
used.  A path that starts at a block parameter is read from this parameter and not reported.
-/

namespace TemplateModules

namespace Template

open Spec

/-! ## Uses -/

/-- What a piece of a template uses. -/
inductive Use where
  /-- The value of a path. -/
  | value (path : Path)
  | helper (name : String)
  | inclusion (name : String)

namespace Use

/-- The path whose value is used. -/
def path? : Use → Option Path
  | value path => some path
  | _ => none

/-- The names that are reported for a use. -/
def lookups (scopes : Scopes) (tag : Span) : Use → List Lookup
  | helper name => [{ name, kind := .helper, tag }]
  | inclusion name => [{ name, kind := .inclusion, tag }]
  | value path => path.lookups scopes tag

end Use

mutual

def Expr.uses (scopes : Scopes) : Expr → List Use
  | .path path => [.value path]
  | .literal _ => []
  | .sub call => call.usesInside scopes

/-- The uses of a call in parentheses.  Its head is the name of a block parameter or of a helper. -/
def Call.usesInside (scopes : Scopes) : Call → List Use
  | { head := .path path, params, hash } =>
      match path.simpleName? with
      | some name =>
          if Scopes.binds scopes name then [.value path]
          else .helper name :: (paramsUses scopes params ++ hashUses scopes hash)
      | none => []
  | _ => []

/-- The uses of positional arguments. -/
def paramsUses (scopes : Scopes) : List Expr → List Use
  | [] => []
  | e :: es => e.uses scopes ++ paramsUses scopes es

/-- The uses of arguments with names. -/
def hashUses (scopes : Scopes) : List (String × Expr) → List Use
  | [] => []
  | (_, e) :: hash => e.uses scopes ++ hashUses scopes hash

end

/-- The uses of the call of a mustache or at the head of a block.  A bare name that is no block
parameter is one of a helper, of a field or of either. -/
def Call.uses (options : Options) (scopes : Scopes) (call : Call) : List Use :=
  match call.head with
  | .path path =>
      match path.simpleName? with
      | some name =>
          if Scopes.binds scopes name then [.value path]
          else if options.isKnown name || call.hasArguments then
            .helper name :: (paramsUses scopes call.params ++ hashUses scopes call.hash)
          else if options.knownHelpersOnly then [.value path]
          else [.helper name, .value path]
      | none => [.value path]
  | head => head.uses scopes

/-- The uses of the context of a partial. -/
def contextUses (scopes : Scopes) : Option Expr → List Use
  | none => []
  | some e => e.uses scopes

namespace Statement

/-- The uses of a statement itself, without those of its sections. -/
def uses (options : Options) (scopes : Scopes) : Statement → List Use
  | content _ => []
  | comment _ => []
  | mustache call _ _ => call.uses options scopes
  | block call _ _ _ => call.uses options scopes
  | inclusion name context hash _ =>
      .inclusion name :: (contextUses scopes context ++ hashUses scopes hash)

/-- The names that a statement itself reports, all of them for its tag. -/
def ownLookups (options : Options) (scopes : Scopes) (s : Statement) : List Lookup :=
  s.span?.toList.flatMap fun tag => (s.uses options scopes).flatMap (Use.lookups scopes tag)

end Statement

mutual

/-- The names that a program reports, in the order of its tree. -/
def Program.lookups (options : Options) (outer : Scopes) : Program → List Lookup
  | { body, blockParams } => bodyLookups options (blockParams :: outer) body

def bodyLookups (options : Options) (scopes : Scopes) : List Statement → List Lookup
  | [] => []
  | s :: rest => s.lookups options scopes ++ bodyLookups options scopes rest

/-- The names that a statement reports: its own, and behind them those of its sections. -/
def Statement.lookups (options : Options) (scopes : Scopes) : Statement → List Lookup
  | .block call main inverse tag =>
      (Statement.block call main inverse tag).ownLookups options scopes ++
        (main.lookups options scopes ++ inverseLookups options scopes inverse)
  | s => s.ownLookups options scopes

def inverseLookups (options : Options) (scopes : Scopes) : Option Program → List Lookup
  | none => []
  | some inverse => inverse.lookups options scopes

end

end Template

namespace Spec

open Template

/-- The lookups of uses, and the accesses that read the values among them. -/
structure Resolved
    (scopes : Scopes) (tag : Span) (uses : List Use) (lookups : List Lookup)
    (accesses : List Access) : Prop where
  lookups_eq : lookups = uses.flatMap (Use.lookups scopes tag)
  readAs : List.Forall₂ (ReadAs scopes) (uses.filterMap Use.path?) accesses

namespace Resolved

variable {scopes : Scopes} {tag : Span} {uses others : List Use} {lookups more : List Lookup}
  {accesses rest : List Access}

theorem nil : Resolved scopes tag [] [] [] :=
  ⟨rfl, .nil⟩

theorem append
    (h : Resolved scopes tag uses lookups accesses) (hothers : Resolved scopes tag others more rest) :
    Resolved scopes tag (uses ++ others) (lookups ++ more) (accesses ++ rest) := by
  constructor
  · rw [h.lookups_eq, hothers.lookups_eq, List.flatMap_append]
  · rw [List.filterMap_append]
    exact List.rel_append h.readAs hothers.readAs

theorem helper (name : String) (h : Resolved scopes tag uses lookups accesses) :
    Resolved scopes tag (.helper name :: uses)
      ({ name, kind := .helper, tag } :: lookups) accesses := by
  constructor
  · rw [h.lookups_eq]
    rfl
  · exact h.readAs

theorem inclusion (name : String) (h : Resolved scopes tag uses lookups accesses) :
    Resolved scopes tag (.inclusion name :: uses)
      ({ name, kind := .inclusion, tag } :: lookups) accesses := by
  constructor
  · rw [h.lookups_eq]
    rfl
  · exact h.readAs

end Resolved

/-! ## Compilations that succeed -/

/-- If a compilation succeeds, then its lookups and its result are related. -/
def Ensures {α : Type} (x : Reporting α) (P : List Lookup → α → Prop) : Prop :=
  ∀ a, x.result = .ok a → P x.lookups a

namespace Ensures

variable {α β : Type} {P : List Lookup → α → Prop} {Q : List Lookup → β → Prop}

protected theorem pure {a : α} (h : P [] a) : Ensures (pure a) P := by
  intro b hb
  cases hb
  exact h

protected theorem fail {cause : Cause} {span : Span} : Ensures (.fail cause span) P := by
  intro b hb
  cases hb

theorem report {name : String} {kind : LookupKind} {tag : Span} {P : List Lookup → Unit → Prop}
    (h : P [{ name, kind, tag }] ()) :
    Ensures (.report name kind tag) P := by
  intro _ _
  exact h

protected theorem bind
    {x : Reporting α} {f : α → Reporting β}
    (hx : Ensures x P) (hf : ∀ ls a, P ls a → Ensures (f a) fun ms => Q (ls ++ ms)) :
    Ensures (x >>= f) Q := by
  intro b hb
  obtain ⟨a, ha, hfa⟩ := Reporting.exists_of_bind hb
  have hlookups : (x >>= f).lookups = x.lookups ++ (f a).lookups := by
    simp [Bind.bind, Reporting.bind, ha]
  rw [hlookups]
  exact hf x.lookups a (hx a ha) b hfa

end Ensures

/-! ## Paths -/

section

variable {options : Options} {scopes : Scopes} {tag : Span}

theorem ensures_compilePath (path : Path) :
    Ensures (compilePath scopes path tag) fun ls access =>
      Resolved scopes tag [.value path] ls [access] := by
  intro access h
  obtain ⟨haccess, hlookups⟩ := compilePath_reads h
  rw [hlookups]
  exact ⟨(List.append_nil _).symm, .cons haccess .nil⟩

/-! ## Calls -/

/-- A head that is shadowed is the bare name of a block parameter in scope. -/
theorem binds_of_shadowed?
    {call : Call} {path : Path} (h : shadowed? scopes call = some path) :
    call.head = .path path ∧ ∃ name, path.simpleName? = some name ∧
      Scopes.binds scopes name = true := by
  obtain ⟨hhead, name, level, index, hname, hparam⟩ := exists_of_shadowed? h
  refine ⟨hhead, name, hname, ?_⟩
  rw [← isSome_blockParam?, hparam, Option.isSome_some]

/-- A bare name at the head of a call that is not shadowed is that of no block parameter. -/
theorem not_binds_of_shadowed?
    {call : Call} {path : Path} {name : String} (h : shadowed? scopes call = none)
    (hhead : call.head = .path path) (hname : path.simpleName? = some name) :
    Scopes.binds scopes name = false := by
  have hcall : call.simpleName? = some name := by
    rw [Call.simpleName?, hhead]
    exact hname
  rw [← isSome_blockParam?, blockParam?_of_shadowed? h hcall, Option.isSome_none]

theorem ensures_refuseUnknown {α : Type} {P : List Lookup → α → Prop} (call : Call) :
    Ensures (refuseUnknown call tag) P := by
  intro a ha
  exact absurd ha refuseUnknown_ne_ok

/-- The call of a helper uses the helper and what its arguments use. -/
theorem ensures_call
    {α : Type} {accesses : α → List Access} {params : List Expr} {hash : List (String × Expr)}
    (hparams : Ensures (compileValues options scopes tag params) fun ls vs =>
      Resolved scopes tag (paramsUses scopes params) ls (valuesAccesses vs))
    (hhash : Ensures (compileHash options scopes tag hash) fun ls fields =>
      Resolved scopes tag (hashUses scopes hash) ls (hashAccesses fields))
    (k : HelperCall → α) (hk : ∀ call, accesses (k call) = call.accesses)
    (name : String) (known : Bool) :
    Ensures (do
        .report name .helper tag
        let params ← compileValues options scopes tag params
        let hash ← compileHash options scopes tag hash
        return k { name, known, params, hash, tag }) fun ls a =>
      Resolved scopes tag (.helper name :: (paramsUses scopes params ++ hashUses scopes hash)) ls
        (accesses a) := by
  have hname : Ensures (.report name .helper tag) fun ls _ =>
      ls = [{ name, kind := .helper, tag }] := .report rfl
  refine .bind hname fun first _ hfirst => ?_
  refine .bind hparams fun ls vs hvs => ?_
  refine .bind hhash fun more fields hfields => .pure ?_
  rw [hfirst, List.append_nil, hk, HelperCall.accesses]
  exact (hvs.append hfields).helper name

mutual

theorem ensures_compileValue :
    ∀ e : Expr, Ensures (compileValue options scopes tag e) fun ls v =>
      Resolved scopes tag (e.uses scopes) ls v.accesses
  | .literal value => .pure .nil
  | .path path => by
      refine .bind (ensures_compilePath path) fun ls access haccess => .pure ?_
      rw [List.append_nil]
      exact haccess
  | .sub call => ensures_compileSub call

theorem ensures_compileSub :
    ∀ call : Call, Ensures (compileSub options scopes tag call) fun ls v =>
      Resolved scopes tag (call.usesInside scopes) ls v.accesses
  | { head, params, hash } => by
      unfold compileSub
      split
      · next path hshadowed =>
        obtain ⟨rfl, name, hname, hbinds⟩ := binds_of_shadowed? hshadowed
        refine .bind (ensures_compilePath path) fun ls access haccess => .pure ?_
        simp only [Call.usesInside, hname, hbinds, if_true, List.append_nil]
        exact haccess
      · next hshadowed =>
        split
        · exact .fail
        · next name hcall =>
          obtain ⟨path, rfl, hname⟩ := Call.exists_of_simpleName? hcall
          have hbinds := not_binds_of_shadowed? hshadowed rfl hname
          simp only [Call.usesInside, hname, hbinds]
          split
          · exact ensures_refuseUnknown _
          · exact ensures_call (ensures_compileValues params) (ensures_compileHash hash) Value.call
              (fun _ => by rw [Value.accesses]) name (options.isKnown name)

theorem ensures_compileValues :
    ∀ es : List Expr, Ensures (compileValues options scopes tag es) fun ls vs =>
      Resolved scopes tag (paramsUses scopes es) ls (valuesAccesses vs)
  | [] => .pure .nil
  | e :: es => by
      refine .bind (ensures_compileValue e) fun ls v hv => ?_
      refine .bind (ensures_compileValues es) fun more vs hvs => .pure ?_
      rw [List.append_nil]
      exact hv.append hvs

theorem ensures_compileHash :
    ∀ hash : List (String × Expr), Ensures (compileHash options scopes tag hash) fun ls fields =>
      Resolved scopes tag (hashUses scopes hash) ls (hashAccesses fields)
  | [] => .pure .nil
  | (key, e) :: hash => by
      refine .bind (ensures_compileValue e) fun ls v hv => ?_
      refine .bind (ensures_compileHash hash) fun more fields hfields => .pure ?_
      rw [List.append_nil]
      exact hv.append hfields

end

theorem ensures_compileHelper (name : String) (known : Bool) (call : Call) :
    Ensures (compileHelper options scopes tag name known call) fun ls compiled =>
      Resolved scopes tag
        (.helper name :: (paramsUses scopes call.params ++ hashUses scopes call.hash)) ls
        compiled.accesses :=
  ensures_call (ensures_compileValues call.params) (ensures_compileHash call.hash) id
    (fun _ => rfl) name known

/-- A name that is both that of a helper and of a field is reported twice. -/
theorem ensures_helperOrField
    {α : Type} {accesses : α → List Access} (path : Path) (name : String) (k : Access → α)
    (hk : ∀ access, accesses (k access) = [access]) :
    Ensures (do
        .report name .helper tag
        return k (← compilePath scopes path tag)) fun ls a =>
      Resolved scopes tag [.helper name, .value path] ls (accesses a) := by
  have hname : Ensures (.report name .helper tag) fun ls _ =>
      ls = [{ name, kind := .helper, tag }] := .report rfl
  refine .bind hname fun first _ hfirst => ?_
  refine .bind (ensures_compilePath path) fun ls access haccess => .pure ?_
  rw [hfirst, List.append_nil, hk]
  exact haccess.helper name

/-- A path alone is used for its value. -/
theorem ensures_field
    {α : Type} {accesses : α → List Access} (path : Path) (k : Access → α)
    (hk : ∀ access, accesses (k access) = [access]) :
    Ensures (do return k (← compilePath scopes path tag)) fun ls a =>
      Resolved scopes tag [.value path] ls (accesses a) := by
  refine .bind (ensures_compilePath path) fun ls access haccess => .pure ?_
  rw [List.append_nil, hk]
  exact haccess

/-! ## Statements -/

theorem Call.uses_of_not_path {call : Call} (h : ∀ path, call.head = .path path → False) :
    call.uses options scopes = call.head.uses scopes := by
  unfold Call.uses
  split
  · next path hhead => exact absurd hhead fun hhead => h path hhead
  · rfl

/-- The uses of a call by its role. -/
def Role.uses (scopes : Scopes) (call : Call) : Role → List Use
  | helper name _ => .helper name :: (paramsUses scopes call.params ++ hashUses scopes call.hash)
  | value path => [.value path]
  | either name path => [.helper name, .value path]
  | plain => call.head.uses scopes
  | refused _ => []

theorem Plays.uses_eq
    {call : Call} {role : Role} (h : Plays options scopes call role)
    (hrole : ∀ cause, role ≠ .refused cause) :
    call.uses options scopes = role.uses scopes call := by
  cases h with
  | param hshadowed =>
      obtain ⟨hhead, name, hname, hbinds⟩ := binds_of_shadowed? hshadowed
      simp only [Call.uses, hhead, hname, hbinds, if_true, Role.uses]
  | helper hfree hcall hcalled =>
      obtain ⟨path, hhead, hname⟩ := Call.exists_of_simpleName? hcall
      have hbinds := not_binds_of_shadowed? hfree hhead hname
      have hhelper := hcalled.imp_right And.left
      simp only [Call.uses, hhead, hname, hbinds, Bool.or_eq_true, if_pos hhelper, Role.uses,
        Bool.false_eq_true, if_false]
  | @field path hfree hhead harguments hother =>
      cases hname : path.simpleName? with
      | none => simp only [Call.uses, hhead, hname, Role.uses]
      | some name =>
          obtain ⟨hunknown, honly⟩ := hother name hname
          have hbinds := not_binds_of_shadowed? hfree hhead hname
          simp [Call.uses, hhead, hname, hbinds, hunknown, harguments, honly, Role.uses]
  | either hfree hhead hname hunknown harguments hopen =>
      have hbinds := not_binds_of_shadowed? hfree hhead hname
      simp [Call.uses, hhead, hname, hbinds, hunknown, harguments, hopen, Role.uses]
  | plain hfree hhead harguments => exact Call.uses_of_not_path hhead
  | refused => exact absurd rfl (hrole _)

/-- If the outcome of a call accesses just what it is made of, then the accesses are those of the
uses of the call. -/
theorem ensures_outcomes
    {α : Type} {outcomes : Outcomes α} {accesses : α → List Access} {call : Call} {role : Role}
    {plain : Reporting α} (hplays : Plays options scopes call role)
    (hhelper : ∀ compiled, accesses (outcomes.helper compiled) = compiled.accesses)
    (hvalue : ∀ path access, accesses (outcomes.value path access) = [access])
    (heither : ∀ name path access, accesses (outcomes.either name path access) = [access])
    (hplain : Ensures plain fun ls a =>
      Resolved scopes tag (call.head.uses scopes) ls (accesses a)) :
    Ensures (outcomes.compile options scopes tag call plain role) fun ls a =>
      Resolved scopes tag (call.uses options scopes) ls (accesses a) := by
  cases role with
  | helper name known =>
      rw [hplays.uses_eq nofun]
      refine .bind (ensures_compileHelper name known call) fun ls compiled hcompiled => .pure ?_
      rw [List.append_nil, hhelper]
      exact hcompiled
  | value path =>
      rw [hplays.uses_eq nofun]
      exact ensures_field path _ (hvalue path)
  | either name path =>
      rw [hplays.uses_eq nofun]
      exact ensures_helperOrField path name _ (heither name path)
  | plain =>
      rw [hplays.uses_eq nofun]
      exact hplain
  | refused cause => exact .fail

theorem ensures_compileMustache (call : Call) :
    Ensures (compileMustache options scopes tag call) fun ls shown =>
      Resolved scopes tag (call.uses options scopes) ls shown.accesses := by
  rw [compileMustache_eq]
  refine ensures_outcomes plays_mustacheRole ?_ (fun _ _ => rfl) (fun _ _ _ => rfl) ?_
  · intro compiled
    rw [mustacheOutcomes, Shown.accesses, Value.accesses]
  · refine .bind (ensures_compileValue call.head) fun ls v hv => .pure ?_
    rw [List.append_nil]
    exact hv

theorem ensures_compileOpening (call : Call) :
    Ensures (compileOpening options scopes tag call) fun ls opening =>
      Resolved scopes tag (call.uses options scopes) ls opening.accesses := by
  rw [compileOpening_eq]
  exact ensures_outcomes plays_openingRole (fun _ => rfl) (fun _ _ => rfl) (fun _ _ _ => rfl) .fail

theorem ensures_compileContext (context : Option Expr) :
    Ensures (compileContext options scopes tag context) fun ls value =>
      Resolved scopes tag (contextUses scopes context) ls (contextAccesses value) := by
  cases context with
  | none => exact .pure .nil
  | some e =>
      refine .bind (ensures_compileValue e) fun ls v hv => .pure ?_
      rw [List.append_nil]
      exact hv

/-- A line reads the values of the paths that its statement uses, in this order. -/
theorem Becomes.readAs
    {s : Statement} {line : Line SectionRef} (h : Becomes options scopes s line) :
    List.Forall₂ (ReadAs scopes) ((s.uses options scopes).filterMap Use.path?) line.accesses := by
  cases h with
  | text hnonempty => exact .nil
  | mustache hshown => exact (ensures_compileMustache _ _ hshown).readAs
  | block hopening => exact (ensures_compileOpening _ _ hopening).readAs
  | inclusion hvalue hfields =>
      have hcontext := ensures_compileContext _ _ hvalue
      have hhash := ensures_compileHash _ _ hfields
      exact (hcontext.append hhash).readAs

end

/-! ## Programs -/

section

variable {options : Options}

mutual

/-- A program that compiles reports the names that it uses, in the order of its tree. -/
theorem ensures_compileSection (scopes : Scopes) :
    ∀ p : Program, Ensures (compileSection options scopes p) fun ls _ =>
      ls = p.lookups options scopes
  | { body, blockParams } => by
      refine .bind (ensures_compileLines (blockParams :: scopes) body) fun ls lines hls => .pure ?_
      rw [hls, List.append_nil, Program.lookups]

theorem ensures_compileLines (scopes : Scopes) :
    ∀ body : List Statement, Ensures (compileLines options scopes body) fun ls _ =>
      ls = bodyLookups options scopes body
  | [] => .pure rfl
  | s :: rest => by
      refine .bind (ensures_compileStatement scopes s) fun ls line hls => ?_
      refine .bind (ensures_compileLines scopes rest) fun more lines hmore => .pure ?_
      rw [hls, hmore, List.append_nil, bodyLookups]

theorem ensures_compileStatement (scopes : Scopes) :
    ∀ s : Statement, Ensures (compileStatement options scopes s) fun ls _ =>
      ls = s.lookups options scopes
  | .content text => .pure rfl
  | .comment text => .pure rfl
  | .mustache call escaped tag => by
      refine .bind (ensures_compileMustache call) fun ls shown hshown => .pure ?_
      rw [hshown.lookups_eq]
      simp [Statement.lookups, Statement.ownLookups, Statement.span?, Statement.uses]
  | .inclusion name context hash tag => by
      have hname : Ensures (.report name .inclusion tag) fun ls _ =>
          ls = [{ name, kind := .inclusion, tag }] := .report rfl
      refine .bind hname fun first _ hfirst => ?_
      refine .bind (ensures_compileContext context) fun ls value hvalue => ?_
      refine .bind (ensures_compileHash hash) fun more fields hfields => .pure ?_
      have hall := ((hvalue.append hfields).inclusion name).lookups_eq
      rw [hfirst, List.append_nil]
      simpa [Statement.lookups, Statement.ownLookups, Statement.span?, Statement.uses] using hall
  | .block call main inverse tag => by
      refine .bind (ensures_compileOpening call) fun ls opening hopening => ?_
      refine .bind (ensures_compileSection scopes main) fun inside main' hinside => ?_
      refine .bind (ensures_compileInverse scopes inverse) fun beside other hbeside => .pure ?_
      rw [hopening.lookups_eq, hinside, hbeside, List.append_nil]
      simp [Statement.lookups, Statement.ownLookups, Statement.span?, Statement.uses]

theorem ensures_compileInverse (scopes : Scopes) :
    ∀ inverse : Option Program, Ensures (compileInverse options scopes inverse) fun ls _ =>
      ls = inverseLookups options scopes inverse
  | none => .pure rfl
  | some p => by
      refine .bind (ensures_compileSection scopes p) fun ls section' hls => .pure ?_
      rw [hls, List.append_nil, inverseLookups]

end

/-- A template that compiles reports the names that it uses, in the order of its tree. -/
theorem lookups_of_precompile
    {source : String} {program : Program} {artifact : Artifact}
    (hparse : parse source = .ok program)
    (h : (precompile options source).result = .ok artifact) :
    (precompile options source).lookups = program.lookups options [] := by
  obtain ⟨parsed, main, hparsed, hmain, -⟩ := exists_section_of_precompile h
  obtain rfl : program = parsed := Except.ok.inj (hparse.symm.trans hparsed)
  have hlookups : (precompile options source).lookups =
      (compileSection options [] program).lookups := by
    rw [precompile, hparse]
  rw [hlookups]
  exact ensures_compileSection [] program main hmain

end

end Spec
end TemplateModules
