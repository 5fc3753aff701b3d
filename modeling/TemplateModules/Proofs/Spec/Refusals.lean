import TemplateModules.Proofs.Spec.Calls
import TemplateModules.Proofs.Template.Refusals

/-!
# Errors point at tags

Compilation hands the span of a statement down to everything inside it, and refuses with this span
only.  The statements have the spans of their tags.  So whatever a source is refused for, its error
has the span of one of its tags.
-/

namespace TemplateModules
namespace Spec

open Template

/-- A compilation refuses with spans of a certain kind only. -/
def RefusesIn {α : Type} (P : Span → Prop) (x : Reporting α) : Prop :=
  ∀ e, x.result = .error e → P e.span

namespace RefusesIn

variable {α β : Type} {P : Span → Prop}

protected theorem pure (a : α) : RefusesIn P (pure a) :=
  fun _ h => nomatch h

protected theorem report {name : String} {kind : LookupKind} {tag : Span} :
    RefusesIn P (.report name kind tag) :=
  fun _ h => nomatch h

protected theorem fail {cause : Cause} {span : Span} (h : P span) :
    RefusesIn P (.fail cause span : Reporting α) := by
  intro e he
  cases he
  exact h

protected theorem bind {x : Reporting α} {f : α → Reporting β}
    (hx : RefusesIn P x) (hf : ∀ a, RefusesIn P (f a)) :
    RefusesIn P (x >>= f) := by
  intro e he
  cases hresult : x.result with
  | error e' =>
      have hbind : (x >>= f).result = .error e' := by simp [Bind.bind, Reporting.bind, hresult]
      obtain rfl := Except.error.inj (hbind.symm.trans he)
      exact hx _ hresult
  | ok a =>
      have hbind : (x >>= f).result = (f a).result := by
        simp [Bind.bind, Reporting.bind, hresult]
      exact hf a e (hbind.symm.trans he)

end RefusesIn

/-! ## Expressions -/

section

variable {P : Span → Prop} {tag : Span} (htag : P tag) (scopes : Scopes)

omit htag in
theorem refusesIn_reportFirst (path : Path) (kind : LookupKind) :
    RefusesIn P (reportFirst path kind tag) := by
  unfold reportFirst
  split
  · exact .pure ()
  · exact .report

include htag

theorem refusesIn_compilePath (path : Path) : RefusesIn P (compilePath scopes path tag) := by
  unfold compilePath
  split
  · split
    · exact .fail htag
    · exact .bind (refusesIn_reportFirst path .data) fun _ => .pure _
  · split
    · exact .pure _
    · exact .bind (refusesIn_reportFirst path .context) fun _ => .pure _

theorem refusesIn_refuseUnknown {α : Type} (call : Call) :
    RefusesIn P (refuseUnknown call tag : Reporting α) := by
  unfold refuseUnknown
  split
  · exact .fail htag
  · exact .fail htag

end

section

variable {P : Span → Prop} {tag : Span} (options : Options) (scopes : Scopes)

mutual

theorem refusesIn_compileValue (htag : P tag) :
    ∀ e : Expr, RefusesIn P (compileValue options scopes tag e)
  | .literal _ => .pure _
  | .path path => .bind (refusesIn_compilePath htag scopes path) fun _ => .pure _
  | .sub call => refusesIn_compileSub htag call

theorem refusesIn_compileSub (htag : P tag) :
    ∀ call : Call, RefusesIn P (compileSub options scopes tag call)
  | { head, params, hash } => by
      unfold compileSub
      split
      · next path _ => exact .bind (refusesIn_compilePath htag scopes path) fun _ => .pure _
      · split
        · exact .fail htag
        · simp only
          split
          · exact refusesIn_refuseUnknown htag _
          · refine .bind .report fun _ => ?_
            refine .bind (refusesIn_compileValues htag params) fun _ => ?_
            exact .bind (refusesIn_compileHash htag hash) fun _ => .pure _

theorem refusesIn_compileValues (htag : P tag) :
    ∀ es : List Expr, RefusesIn P (compileValues options scopes tag es)
  | [] => .pure _
  | e :: es => by
      refine .bind (refusesIn_compileValue htag e) fun _ => ?_
      exact .bind (refusesIn_compileValues htag es) fun _ => .pure _

theorem refusesIn_compileHash (htag : P tag) :
    ∀ hash : List (String × Expr), RefusesIn P (compileHash options scopes tag hash)
  | [] => .pure _
  | (key, e) :: hash => by
      refine .bind (refusesIn_compileValue htag e) fun _ => ?_
      exact .bind (refusesIn_compileHash htag hash) fun _ => .pure _

end

/-! ## Statements -/

variable (htag : P tag)
include htag

theorem refusesIn_compileHelper (name : String) (known : Bool) (call : Call) :
    RefusesIn P (compileHelper options scopes tag name known call) := by
  refine .bind .report fun _ => ?_
  refine .bind (refusesIn_compileValues options scopes htag call.params) fun _ => ?_
  exact .bind (refusesIn_compileHash options scopes htag call.hash) fun _ => .pure _

theorem refusesIn_outcomes
    {α : Type} (outcomes : Outcomes α) {plain : Reporting α} (hplain : RefusesIn P plain)
    (call : Call) (role : Role) :
    RefusesIn P (outcomes.compile options scopes tag call plain role) := by
  cases role with
  | helper name known =>
      exact .bind (refusesIn_compileHelper options scopes htag name known call) fun _ => .pure _
  | value path => exact .bind (refusesIn_compilePath htag scopes path) fun _ => .pure _
  | either name path =>
      refine .bind .report fun _ => ?_
      exact .bind (refusesIn_compilePath htag scopes path) fun _ => .pure _
  | plain => exact hplain
  | refused cause => exact .fail htag

theorem refusesIn_compileMustache (call : Call) :
    RefusesIn P (compileMustache options scopes tag call) := by
  rw [compileMustache_eq]
  apply refusesIn_outcomes options scopes htag
  exact .bind (refusesIn_compileValue options scopes htag call.head) fun _ => .pure _

theorem refusesIn_compileOpening (call : Call) :
    RefusesIn P (compileOpening options scopes tag call) := by
  rw [compileOpening_eq]
  exact refusesIn_outcomes options scopes htag _ (.fail htag) _ _

theorem refusesIn_compileContext (context : Option Expr) :
    RefusesIn P (compileContext options scopes tag context) := by
  cases context with
  | none => exact .pure _
  | some e => exact .bind (refusesIn_compileValue options scopes htag e) fun _ => .pure _

end

/-! ## Programs -/

/-- The statements of some sections have spans of a certain kind. -/
def SpansIn (P : Span → Prop) (ps : List Program) : Prop :=
  ∀ p ∈ ps, ∀ s ∈ p.body, ∀ span ∈ s.span?, P span

section

variable {P : Span → Prop} (options : Options)

mutual

theorem refusesIn_compileSection (scopes : Scopes) :
    ∀ p : Program, SpansIn P (p :: p.sections) → RefusesIn P (compileSection options scopes p)
  | { body, blockParams }, h => by
      obtain ⟨hbody, hsections⟩ := List.forall_mem_cons.mp h
      exact .bind (refusesIn_compileLines (blockParams :: scopes) body hbody hsections)
        fun _ => .pure _

theorem refusesIn_compileLines (scopes : Scopes) :
    ∀ body : List Statement, (∀ s ∈ body, ∀ span ∈ s.span?, P span) →
      SpansIn P (bodySections body) → RefusesIn P (compileLines options scopes body)
  | [], _, _ => .pure _
  | s :: rest, h, hsections => by
      obtain ⟨hs, hrest⟩ := List.forall_mem_cons.mp h
      rw [bodySections, SpansIn, List.forall_mem_append] at hsections
      refine .bind (refusesIn_compileStatement scopes s hs hsections.1) fun _ => ?_
      exact .bind (refusesIn_compileLines scopes rest hrest hsections.2) fun _ => .pure _

/-- Everything in a statement is refused with the span of its tag, and its sections with the spans
of their own statements. -/
theorem refusesIn_compileStatement (scopes : Scopes) :
    ∀ s : Statement, (∀ span ∈ s.span?, P span) → SpansIn P s.sections →
      RefusesIn P (compileStatement options scopes s)
  | .content _, _, _ => .pure _
  | .comment _, _, _ => .pure _
  | .mustache call escaped tag, h, _ =>
      .bind (refusesIn_compileMustache options scopes (h tag rfl) call) fun _ => .pure _
  | .block call main inverse tag, h, hsections => by
      rw [Statement.sections, SpansIn, List.forall_mem_append] at hsections
      refine .bind (refusesIn_compileOpening options scopes (h tag rfl) call) fun _ => ?_
      refine .bind (refusesIn_compileSection scopes main hsections.1) fun _ => ?_
      exact .bind (refusesIn_compileInverse scopes inverse hsections.2) fun _ => .pure _
  | .inclusion name context hash tag, h, _ => by
      refine .bind .report fun _ => ?_
      refine .bind (refusesIn_compileContext options scopes (h tag rfl) context) fun _ => ?_
      exact .bind (refusesIn_compileHash options scopes (h tag rfl) hash) fun _ => .pure _

theorem refusesIn_compileInverse (scopes : Scopes) :
    ∀ inverse : Option Program, SpansIn P (inverseSections inverse) →
      RefusesIn P (compileInverse options scopes inverse)
  | none, _ => .pure _
  | some p, h => .bind (refusesIn_compileSection scopes p h) fun _ => .pure _

end

end

/-- An error that a source is refused with has the span of one of its tags, whether the tag is cut
off, cannot be read, stands in a wrong place or asks for what is not there. -/
theorem isTagSpan_of_precompile_refused
    {options : Options} {source : String} {e : Error}
    (h : (precompile options source).result = .error (.refused e)) :
    e.span.start < e.span.stop ∧ IsTagSpan source.toList e.span := by
  suffices hspan : IsTagSpan source.toList e.span from ⟨hspan.start_lt_stop, hspan⟩
  unfold precompile at h
  split at h
  · next f hparse =>
      obtain rfl := Except.error.inj h
      exact isTagSpan_of_parse_refused hparse
  · next program hparse =>
      simp only at h
      split at h
      · next e' hmain =>
          cases h
          exact refusesIn_compileSection options [] program (isTagSpan_of_parse hparse) e hmain
      · cases h

/-- A call of an unknown helper behind a chained alternative, on the second line. -/
def unknownCall : String :=
  "\x7b\x7b#if a\x7d\x7d\x7b\x7belse if b\x7d\x7d\n  \x7b\x7bshout c\x7d\x7d\x7b\x7b/if\x7d\x7d"

theorem unknownCall_pointsAtTag :
    ∃ e, (precompile builtinOnly unknownCall).result = .error (.refused e) ∧
      e.cause = .unknownHelper "shout" ∧ e.span.line = 2 ∧ e.span.column = 2 ∧
      e.span.start < e.span.stop ∧ IsTagSpan unknownCall.toList e.span := by
  have hresult : (precompile builtinOnly unknownCall).result = .error (.refused
      { cause := .unknownHelper "shout",
        span := { start := 25, stop := 36, line := 2, column := 2, endLine := 2,
                  endColumn := 13 } }) := by
    decide +kernel
  exact ⟨_, hresult, rfl, rfl, rfl, isTagSpan_of_precompile_refused hresult⟩

end Spec
end TemplateModules
