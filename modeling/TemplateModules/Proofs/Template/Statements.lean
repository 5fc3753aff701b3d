import TemplateModules.Proofs.Spec.Sections
import TemplateModules.Proofs.Template.Blocks
import TemplateModules.Proofs.Template.Spans

/-!
# Every statement of a template

Statements come from single tags and contents, and blocks are put around them.  What holds of the
statements that the tokens begin therefore holds of every statement of a template, however deep it
stands.  So every statement has the span of a tag, and at most one of the two sections of a block
gives names to block parameters.
-/

namespace TemplateModules
namespace Template

/-! ## Statements at any depth -/

/-- A property of the statements of a section and of all sections inside it. -/
def Everywhere (P : Statement → Prop) (body : List Statement) : Prop :=
  (∀ s ∈ body, P s) ∧ ∀ p ∈ bodySections body, ∀ s ∈ p.body, P s

/-- At most one of the two sections of a block gives names to block parameters. -/
def Statement.NamesOnce : Statement → Prop
  | .block _ main inverse _ => ∀ other ∈ inverse, main.blockParams = [] ∨ other.blockParams = []
  | _ => True

/-- The statement that a token begins: its own, or a block at the tag. -/
inductive Begins : Token → Statement → Prop where
  | plain {token : Token} {s : Statement} (h : IsStatement token s) : Begins token s
  | block {tag : Tag} {call : Call} {main : Program} {inverse : Option Program}
      (h : (Statement.block call main inverse tag.span).NamesOnce) :
      Begins (.tag tag) (.block call main inverse tag.span)

/-- A property holds in both sections of a block, and only the one behind its tag gives names. -/
structure InSections (P : Statement → Prop) (main : Program) (inverse : Option Program) : Prop where
  main : Everywhere P main.body
  inverse : ∀ other ∈ inverse, other.blockParams = [] ∧ Everywhere P other.body

section

variable {P : Statement → Prop}

theorem everywhere_nil : Everywhere P [] := by
  constructor
  · intro s hs
    cases hs
  · intro p hp
    cases hp

theorem Everywhere.cons
    {s : Statement} {body : List Statement} (hs : P s)
    (hsections : ∀ p ∈ s.sections, ∀ t ∈ p.body, P t) (h : Everywhere P body) :
    Everywhere P (s :: body) := by
  refine ⟨List.forall_mem_cons.mpr ⟨hs, h.1⟩, ?_⟩
  rw [bodySections, List.forall_mem_append]
  exact ⟨hsections, h.2⟩

theorem everywhere_block
    {call : Call} {main : Program} {inverse : Option Program} {span : Span} {body : List Statement}
    (hblock : P (.block call main inverse span)) (hmain : Everywhere P main.body)
    (hinverse : ∀ other ∈ inverse, Everywhere P other.body) (hbody : Everywhere P body) :
    Everywhere P (.block call main inverse span :: body) := by
  refine .cons hblock ?_ hbody
  rw [Statement.sections, List.forall_mem_append, List.forall_mem_cons, main.sections_eq]
  refine ⟨⟨hmain.1, hmain.2⟩, ?_⟩
  cases inverse with
  | none => exact fun p hp => absurd hp List.not_mem_nil
  | some other =>
      rw [inverseSections, List.forall_mem_cons, other.sections_eq]
      exact hinverse other rfl

/-- Exchanging the sections of a block changes nothing of this. -/
theorem InSections.blockOf
    {main : Program} {inverse : Option Program} {tag : Tag} {body : List Statement}
    (h : InSections P main inverse) (htag : ∀ s, Begins (.tag tag) s → P s)
    (hbody : Everywhere P body) (call : Call) :
    Everywhere P (blockOf tag call main inverse :: body) := by
  by_cases hkind : tag.kind = .inverse
  · have hempty : (inverse.getD .empty).blockParams = [] ∧
        Everywhere P (inverse.getD .empty).body := by
      cases inverse with
      | none => exact ⟨rfl, everywhere_nil⟩
      | some other => exact h.inverse other rfl
    rw [blockOf_of_inverse hkind]
    refine everywhere_block (htag _ (.block fun _ _ => Or.inl hempty.1)) hempty.2 ?_ hbody
    rintro _ ⟨⟩
    exact h.main
  · rw [Template.blockOf, if_neg hkind]
    refine everywhere_block (htag _ (.block ?_)) h.main ?_ hbody
    · exact fun other hother => Or.inr (h.inverse other hother).1
    · exact fun other hother => (h.inverse other hother).2

mutual

/-- What holds of all statements that tokens begin holds of every statement. -/
theorem IsBody.everywhere
    {ts : List Token} {body : List Statement} (h : IsBody ts body)
    (hbegins : ∀ token ∈ ts, ∀ s, Begins token s → P s) :
    Everywhere P body := by
  cases h with
  | nil => exact everywhere_nil
  | @plain token ts first body hfirst hbody =>
      rw [List.forall_mem_cons] at hbegins
      have hsections : first.sections = [] := by cases hfirst <;> rfl
      refine .cons (hbegins.1 first (.plain hfirst)) ?_ (hbody.everywhere hbegins.2)
      rw [hsections]
      exact fun p hp => absurd hp List.not_mem_nil
  | @block tag closing inner ts call names main inverse body hopens hcall hinner hclosing hname
      hbody =>
      rw [List.forall_mem_cons, List.forall_mem_append, List.forall_mem_cons] at hbegins
      obtain ⟨htag, hinside, -, hrest⟩ := hbegins
      exact (hinner.inSections hinside).blockOf htag (hbody.everywhere hrest) call
termination_by 2 * ts.length

theorem IsSections.inSections
    {names : List String} {ts : List Token} {main : Program} {inverse : Option Program}
    (h : IsSections names ts main inverse)
    (hbegins : ∀ token ∈ ts, ∀ s, Begins token s → P s) :
    InSections P main inverse := by
  cases h with
  | main hbody => exact ⟨hbody.everywhere hbegins, by simp⟩
  | @bare _ tag ts us body other hbody hkind hempty hother =>
      rw [List.forall_mem_append, List.forall_mem_cons] at hbegins
      refine ⟨hbody.everywhere hbegins.1, ?_⟩
      rintro _ ⟨⟩
      exact ⟨rfl, hother.everywhere hbegins.2.2⟩
  | @chained _ params tag ts us body call main inverse hbody hkind hnonempty hcall hinner =>
      rw [List.forall_mem_append, List.forall_mem_cons] at hbegins
      obtain ⟨hbefore, htag, hbehind⟩ := hbegins
      have hinside := hinner.inSections hbehind
      refine ⟨hbody.everywhere hbefore, ?_⟩
      rintro _ ⟨⟩
      refine ⟨rfl, everywhere_block (htag _ (.block ?_)) hinside.main ?_ everywhere_nil⟩
      · exact fun other hother => Or.inr (hinside.inverse other hother).1
      · exact fun other hother => (hinside.inverse other hother).2
termination_by 2 * ts.length + 1

end

/-- What holds of all statements that the tokens of a template begin holds of every statement of its
sections. -/
theorem forall_of_parse
    {source : String} {program : Program} (h : parse source = .ok program)
    (hbegins : ∀ tokens, scan source = .ok tokens →
      ∀ token ∈ tokens, ∀ s, Begins token s → P s) :
    ∀ p ∈ program :: program.sections, ∀ s ∈ p.body, P s := by
  obtain ⟨tokens, hscan, -, hbody⟩ := exists_tokens_of_parse h
  rw [List.forall_mem_cons, program.sections_eq]
  exact hbody.everywhere (hbegins tokens hscan)

end

/-- What holds of the spans of all tags holds of the spans of all statements. -/
theorem forall_span_of_parse
    {P : Span → Prop} {source : String} {program : Program} (h : parse source = .ok program)
    (htags : ∀ tokens, scan source = .ok tokens → ∀ tag, Token.tag tag ∈ tokens → P tag.span) :
    ∀ p ∈ program :: program.sections, ∀ s ∈ p.body, ∀ span ∈ s.span?, P span := by
  refine forall_of_parse h ?_
  rintro tokens hscan token htoken s (hs | hnames) span hspan
  · cases hs with
    | content => cases hspan
    | comment => cases hspan
    | mustache => cases hspan; exact htags tokens hscan _ htoken
    | unescaped => cases hspan; exact htags tokens hscan _ htoken
    | inclusion => cases hspan; exact htags tokens hscan _ htoken
  · cases hspan
    exact htags tokens hscan _ htoken

/-- The statements of a template start at opening braces. -/
theorem wellPlaced_of_parse
    {source : String} {program : Program} {s : Statement} {span : Span}
    (h : parse source = .ok program) (hs : s ∈ program.body) (hspan : span ∈ s.span?) :
    WellPlaced source.toList span :=
  forall_span_of_parse h (fun _ hscan _ htag => wellPlaced_of_mem_scan hscan htag) program
    List.mem_cons_self s hs span hspan

/-- No section of a template sees block parameters of the section beside it. -/
theorem namesOnce_of_parse
    {source : String} {program : Program} (h : parse source = .ok program) :
    ∀ p ∈ program :: program.sections, ∀ s ∈ p.body, s.NamesOnce := by
  refine forall_of_parse h ?_
  rintro _ _ token _ s (hs | hnames)
  · cases hs <;> trivial
  · exact hnames

end Template
end TemplateModules
