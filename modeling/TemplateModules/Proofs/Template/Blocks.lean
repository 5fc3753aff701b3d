import Mathlib.Tactic.Common
import TemplateModules.Template.Block

/-!
# The tree of a list of tokens

Which statements a list of tokens is does not depend on how they are read.  Reading tokens gives
these statements, and fails where there are none.
-/

namespace TemplateModules
namespace Template

/-! ## The tree of a list of tokens -/

/-- The statement that a token is by itself. -/
inductive IsStatement : Token → Statement → Prop where
  | content (text : String) (span : Span) : IsStatement (.content text span) (.content text)
  | comment {tag : Tag} (hkind : tag.kind = .comment) : IsStatement (.tag tag) (.comment tag.body)
  | mustache {tag : Tag} {call : Call} {names : List String}
      (hkind : tag.kind = .mustache)
      (hcall : parseCall tag.body false = .ok (call, names)) :
      IsStatement (.tag tag) (.mustache call true tag.span)
  | unescaped {tag : Tag} {call : Call} {names : List String}
      (hkind : tag.kind = .unescaped)
      (hcall : parseCall tag.body false = .ok (call, names)) :
      IsStatement (.tag tag) (.mustache call false tag.span)
  | inclusion {tag : Tag} {p : Inclusion}
      (hkind : tag.kind = .inclusion)
      (hp : parseInclusion tag.body = .ok p) :
      IsStatement (.tag tag) (.inclusion p.name p.context p.hash tag.span)

def Tag.Opens (tag : Tag) : Prop :=
  tag.kind = .block ∨ tag.kind = .inverse

/-- The block that a tag opens.  The sections of an inverse block are exchanged. -/
def blockOf (tag : Tag) (call : Call) (main : Program) (inverse : Option Program) : Statement :=
  if tag.kind = .inverse then .block call (inverse.getD .empty) (some main) tag.span
  else .block call main inverse tag.span

theorem blockOf_of_block
    {tag : Tag} (h : tag.kind = .block) (call : Call) (main : Program) (inverse : Option Program) :
    blockOf tag call main inverse = .block call main inverse tag.span := by
  simp [blockOf, h]

theorem blockOf_of_inverse
    {tag : Tag} (h : tag.kind = .inverse) (call : Call) (main : Program)
    (inverse : Option Program) :
    blockOf tag call main inverse = .block call (inverse.getD .empty) (some main) tag.span := by
  simp [blockOf, h]

mutual

/-- Tokens are a list of statements. -/
inductive IsBody : List Token → List Statement → Prop where
  | nil : IsBody [] []
  | plain {token : Token} {ts : List Token} {first : Statement} {body : List Statement}
      (hfirst : IsStatement token first) (hbody : IsBody ts body) :
      IsBody (token :: ts) (first :: body)
  | block {tag closing : Tag} {inner ts : List Token} {call : Call} {names : List String}
      {main : Program} {inverse : Option Program} {body : List Statement}
      (hopens : tag.Opens)
      (hcall : parseCall tag.body true = .ok (call, names))
      (hinner : IsSections names inner main inverse)
      (hclosing : closing.kind = .close)
      (hname : closing.body = call.head.closingText)
      (hbody : IsBody ts body) :
      IsBody (.tag tag :: (inner ++ .tag closing :: ts)) (blockOf tag call main inverse :: body)

/-- Tokens are the sections of a block.  A chained `else` is a block, which is the only statement of
the inverse section. -/
inductive IsSections : List String → List Token → Program → Option Program → Prop where
  | main {names : List String} {ts : List Token} {body : List Statement} (hbody : IsBody ts body) :
      IsSections names ts { body, blockParams := names } none
  | bare {names : List String} {tag : Tag} {ts us : List Token} {body other : List Statement}
      (hbody : IsBody ts body)
      (hkind : tag.kind = .alternative)
      (hempty : tag.body = "")
      (hother : IsBody us other) :
      IsSections names (ts ++ .tag tag :: us) { body, blockParams := names }
        (some { body := other, blockParams := [] })
  | chained {names params : List String} {tag : Tag} {ts us : List Token} {body : List Statement}
      {call : Call} {main : Program} {inverse : Option Program}
      (hbody : IsBody ts body)
      (hkind : tag.kind = .alternative)
      (hnonempty : tag.body ≠ "")
      (hcall : parseCall tag.body true = .ok (call, params))
      (hinner : IsSections params us main inverse) :
      IsSections names (ts ++ .tag tag :: us) { body, blockParams := names }
        (some { body := [.block call main inverse tag.span], blockParams := [] })

end

/-! ## Steps of reading -/

@[simp]
theorem Tag.call_eq_ok {tag : Tag} {allowed : Bool} {read : Call × List String} :
    tag.call allowed = .ok read ↔ parseCall tag.body allowed = .ok read := by
  unfold Tag.call
  split
  · next found hfound => simp [hfound]
  · next e he => simp [he, Tag.refuse]

@[simp]
theorem Tag.inclusion_eq_ok {tag : Tag} {p : Inclusion} :
    tag.inclusion = .ok p ↔ parseInclusion tag.body = .ok p := by
  unfold Tag.inclusion
  split
  · next found hfound => simp [hfound]
  · next e he => simp [he, Tag.refuse]

/-- Statements are read, and certain tokens are left. -/
def TakesBody (ts : List Token) (body : List Statement) (rest : List Token) : Prop :=
  ∃ h, readBody ts = .ok (body, ⟨rest, h⟩)

def TakesBlock
    (tag : Tag) (ts : List Token) (call : Call) (main : Program) (inverse : Option Program)
    (rest : List Token) : Prop :=
  ∃ h, readBlock tag ts = .ok (call, main, inverse, ⟨rest, h⟩)

def TakesSections
    (names : List String) (ts : List Token) (main : Program) (inverse : Option Program)
    (rest : List Token) : Prop :=
  ∃ h, readSections names ts = .ok (main, inverse, ⟨rest, h⟩)

/-- Statements end here: at an `else` tag, a close tag or the end. -/
def EndsBody : List Token → Prop
  | [] => True
  | .content _ _ :: _ => False
  | .tag tag :: _ => tag.kind = .alternative ∨ tag.kind = .close

/-- No `else` tag comes next. -/
def NoElse (ts : List Token) : Prop :=
  ∀ tag later, ts = .tag tag :: later → tag.kind ≠ .alternative

theorem noElse_tag {tag : Tag} (h : tag.kind ≠ .alternative) (ts : List Token) :
    NoElse (.tag tag :: ts) := by
  rintro tag' later ⟨⟩
  exact h

theorem noElse_of_close {tag : Tag} (h : tag.kind = .close) (ts : List Token) :
    NoElse (.tag tag :: ts) := by
  apply noElse_tag
  rw [h]
  decide

theorem continueBody_eq_ok
    {first : Statement} {ts rest : List Token} {body : List Statement} :
    (∃ h, continueBody first ts = .ok (body, ⟨rest, h⟩)) ↔
      ∃ tail, body = first :: tail ∧ TakesBody ts tail rest := by
  constructor
  · rintro ⟨hlt, h⟩
    rw [continueBody] at h
    split at h
    · contradiction
    · next tail later hlater htail =>
        cases h
        exact ⟨tail, rfl, hlater, htail⟩
  · rintro ⟨tail, rfl, hlt, htail⟩
    refine ⟨by omega, ?_⟩
    rw [continueBody]
    simp only [htail]

/-- Statements are none, or begin with that of a token or with a block. -/
theorem TakesBody.cases
    {ts rest : List Token} {body : List Statement} (h : TakesBody ts body rest) :
    (ts = rest ∧ body = [] ∧ EndsBody rest) ∨
    (∃ token later first tail,
      ts = token :: later ∧ body = first :: tail ∧ IsStatement token first ∧
        TakesBody later tail rest) ∨
    ∃ tag inside call main inverse later tail,
      ts = .tag tag :: inside ∧ body = blockOf tag call main inverse :: tail ∧ tag.Opens ∧
        TakesBlock tag inside call main inverse later ∧ TakesBody later tail rest := by
  obtain ⟨hle, h⟩ := h
  rw [readBody.eq_def] at h
  split at h
  · cases h
    exact .inl ⟨rfl, rfl, trivial⟩
  · next text span later =>
      obtain ⟨tail, rfl, htail⟩ := continueBody_eq_ok.mp ⟨_, h⟩
      exact .inr (.inl ⟨_, later, _, tail, rfl, rfl, .content text span, htail⟩)
  · next tag later =>
      split at h
      · next hkind =>
          cases h
          exact .inl ⟨rfl, rfl, .inl hkind⟩
      · next hkind =>
          cases h
          exact .inl ⟨rfl, rfl, .inr hkind⟩
      · next hkind =>
          obtain ⟨tail, rfl, htail⟩ := continueBody_eq_ok.mp ⟨_, h⟩
          exact .inr (.inl ⟨_, later, _, tail, rfl, rfl, .comment hkind, htail⟩)
      · next hkind =>
          split at h
          · contradiction
          · next call names hcall =>
              obtain ⟨tail, rfl, htail⟩ := continueBody_eq_ok.mp ⟨_, h⟩
              rw [Tag.call_eq_ok] at hcall
              exact .inr (.inl ⟨_, later, _, tail, rfl, rfl, .mustache hkind hcall, htail⟩)
      · next hkind =>
          split at h
          · contradiction
          · next call names hcall =>
              obtain ⟨tail, rfl, htail⟩ := continueBody_eq_ok.mp ⟨_, h⟩
              rw [Tag.call_eq_ok] at hcall
              exact .inr (.inl ⟨_, later, _, tail, rfl, rfl, .unescaped hkind hcall, htail⟩)
      · next hkind =>
          split at h
          · contradiction
          · next p hp =>
              obtain ⟨tail, rfl, htail⟩ := continueBody_eq_ok.mp ⟨_, h⟩
              rw [Tag.inclusion_eq_ok] at hp
              exact .inr (.inl ⟨_, later, _, tail, rfl, rfl, .inclusion hkind hp, htail⟩)
      · next hkind =>
          split at h
          · contradiction
          · next call main inverse behind hbehind hblock =>
              split at h
              · contradiction
              · next body' rest' hrest' hcontinue =>
                  cases h
                  rw [← blockOf_of_block hkind] at hcontinue
                  obtain ⟨tail, rfl, htail⟩ := continueBody_eq_ok.mp ⟨_, hcontinue⟩
                  exact .inr (.inr
                    ⟨tag, later, _, _, _, _, tail, rfl, rfl, .inl hkind, ⟨_, hblock⟩, htail⟩)
      · next hkind =>
          split at h
          · contradiction
          · next call main inverse behind hbehind hblock =>
              split at h
              · contradiction
              · next body' rest' hrest' hcontinue =>
                  cases h
                  rw [← blockOf_of_inverse hkind] at hcontinue
                  obtain ⟨tail, rfl, htail⟩ := continueBody_eq_ok.mp ⟨_, hcontinue⟩
                  exact .inr (.inr
                    ⟨tag, later, _, _, _, _, tail, rfl, rfl, .inr hkind, ⟨_, hblock⟩, htail⟩)

theorem takesBody_end {ts : List Token} (h : EndsBody ts) : TakesBody ts [] ts := by
  refine ⟨Nat.le_refl _, ?_⟩
  cases ts with
  | nil => rw [readBody]
  | cons token ts =>
      cases token with
      | content text span => exact h.elim
      | tag tag =>
          rw [readBody]
          obtain hkind | hkind := h
          · simp only [hkind]
          · simp only [hkind]

theorem takesBody_statement
    {token : Token} {first : Statement} {ts rest : List Token} {tail : List Statement}
    (hfirst : IsStatement token first) (htail : TakesBody ts tail rest) :
    TakesBody (token :: ts) (first :: tail) rest := by
  have hcontinue : ∃ h, continueBody first ts = .ok (first :: tail, ⟨rest, h⟩) :=
    continueBody_eq_ok.mpr ⟨tail, rfl, htail⟩
  obtain ⟨hle, hcontinue⟩ := hcontinue
  refine ⟨hle, ?_⟩
  cases hfirst with
  | content text span => rw [readBody, hcontinue]
  | comment hkind =>
      rw [readBody]
      simp only [hkind, hcontinue]
  | mustache hkind hcall =>
      rw [readBody]
      simp only [hkind, Tag.call_eq_ok.mpr hcall, hcontinue]
  | unescaped hkind hcall =>
      rw [readBody]
      simp only [hkind, Tag.call_eq_ok.mpr hcall, hcontinue]
  | inclusion hkind hp =>
      rw [readBody]
      simp only [hkind, Tag.inclusion_eq_ok.mpr hp, hcontinue]

theorem takesBody_block
    {tag : Tag} {inside later rest : List Token} {call : Call} {main : Program}
    {inverse : Option Program} {tail : List Statement}
    (hopens : tag.Opens) (hblock : TakesBlock tag inside call main inverse later)
    (htail : TakesBody later tail rest) :
    TakesBody (.tag tag :: inside) (blockOf tag call main inverse :: tail) rest := by
  obtain ⟨hlater, hblock⟩ := hblock
  have hcontinue : ∃ h, continueBody (blockOf tag call main inverse) later =
      .ok (blockOf tag call main inverse :: tail, ⟨rest, h⟩) :=
    continueBody_eq_ok.mpr ⟨tail, rfl, htail⟩
  obtain ⟨hle, hcontinue⟩ := hcontinue
  refine ⟨?_, ?_⟩
  · rw [List.length_cons]
    omega
  · rw [readBody]
    obtain hkind | hkind := hopens
    · rw [blockOf_of_block hkind] at hcontinue ⊢
      simp only [hkind, hblock, hcontinue]
    · rw [blockOf_of_inverse hkind] at hcontinue ⊢
      simp only [hkind, hblock, hcontinue]

theorem takesBlock_iff
    {tag : Tag} {ts rest : List Token} {call : Call} {main : Program} {inverse : Option Program} :
    TakesBlock tag ts call main inverse rest ↔
      ∃ names closing,
        parseCall tag.body true = .ok (call, names) ∧
          TakesSections names ts main inverse (.tag closing :: rest) ∧
          closing.kind = .close ∧ closing.body = call.head.closingText := by
  constructor
  · rintro ⟨hle, h⟩
    rw [readBlock] at h
    split at h
    · contradiction
    · next found names hcall =>
        rw [Tag.call_eq_ok] at hcall
        split at h
        · contradiction
        · next main' inverse' later hlater hsections =>
            simp only at h
            split at h
            · next closing behind hbehind =>
                split at h
                · next hkind =>
                    split at h
                    · next hname =>
                        cases h
                        exact ⟨names, closing, hcall, ⟨_, hsections⟩, hkind, hname⟩
                    · contradiction
                · contradiction
            · contradiction
  · rintro ⟨names, closing, hcall, ⟨hlt, hsections⟩, hkind, hname⟩
    refine ⟨?_, ?_⟩
    · rw [List.length_cons] at hlt
      omega
    · rw [readBlock]
      simp only [Tag.call_eq_ok.mpr hcall, hsections, hkind, hname, if_true]

/-- Sections are the main one alone, or this, an `else` tag and what follows it. -/
theorem TakesSections.cases
    {names : List String} {ts rest : List Token} {main : Program} {inverse : Option Program}
    (h : TakesSections names ts main inverse rest) :
    ∃ body later,
      TakesBody ts body later ∧ main = { body, blockParams := names } ∧
        ((later = rest ∧ inverse = none ∧ NoElse rest) ∨
          (∃ tag behind other,
            later = .tag tag :: behind ∧
              inverse = some { body := other, blockParams := [] } ∧
              tag.kind = .alternative ∧ tag.body = "" ∧ TakesBody behind other rest ∧
              NoElse rest) ∨
          ∃ tag behind call params inner innerInverse,
            later = .tag tag :: behind ∧
              inverse = some
                { body := [.block call inner innerInverse tag.span], blockParams := [] } ∧
              tag.kind = .alternative ∧ tag.body ≠ "" ∧
              parseCall tag.body true = .ok (call, params) ∧
              TakesSections params behind inner innerInverse rest) := by
  obtain ⟨hle, h⟩ := h
  rw [readSections] at h
  split at h
  · contradiction
  · next body later hlater hbody =>
      refine ⟨body, later, ⟨hlater, hbody⟩, ?_⟩
      simp only at h
      split at h
      · next tag behind hbehind =>
          split at h
          · next hkind =>
              split at h
              · next hempty =>
                  split at h
                  · contradiction
                  · next other last hlast hother =>
                      rw [String.isEmpty_iff] at hempty
                      split at h
                      · next next' last' hlast' =>
                          split at h
                          · contradiction
                          · next hkind' =>
                              cases h
                              exact ⟨rfl, .inr (.inl ⟨tag, behind, other, rfl, rfl, hkind, hempty,
                                ⟨_, hother⟩, noElse_tag hkind' _⟩)⟩
                      · next hnone =>
                          cases h
                          refine ⟨rfl, .inr (.inl ⟨tag, behind, other, rfl, rfl, hkind, hempty,
                            ⟨_, hother⟩, ?_⟩)⟩
                          rintro tag' later' rfl
                          exact (hnone tag' later' hlast rfl HEq.rfl).elim
              · next hempty =>
                  split at h
                  · contradiction
                  · next call params hcall =>
                      rw [Tag.call_eq_ok] at hcall
                      split at h
                      · contradiction
                      · next inner innerInverse last hlast hinner =>
                          cases h
                          refine ⟨rfl, .inr (.inr ⟨tag, behind, call, params, inner, innerInverse,
                            rfl, rfl, hkind, ?_, hcall, ⟨_, hinner⟩⟩)⟩
                          simpa using hempty
          · next hkind =>
              cases h
              exact ⟨rfl, .inl ⟨rfl, rfl, noElse_tag hkind _⟩⟩
      · next hnone =>
          cases h
          refine ⟨rfl, .inl ⟨rfl, rfl, ?_⟩⟩
          rintro tag' later' rfl
          exact (hnone tag' later' hlater rfl HEq.rfl).elim

theorem takesSections_main
    {ts rest : List Token} {body : List Statement} (hbody : TakesBody ts body rest)
    (hnoElse : NoElse rest) (names : List String) :
    TakesSections names ts { body, blockParams := names } none rest := by
  obtain ⟨hrest, hbody⟩ := hbody
  refine ⟨hrest, ?_⟩
  rw [readSections]
  simp only [hbody]
  split
  · next tag behind hbehind => rw [if_neg (hnoElse tag behind rfl)]
  · rfl

theorem takesSections_bare
    {tag : Tag} {ts behind rest : List Token} {body other : List Statement}
    (hbody : TakesBody ts body (.tag tag :: behind)) (hkind : tag.kind = .alternative)
    (hempty : tag.body = "") (hother : TakesBody behind other rest) (hnoElse : NoElse rest)
    (names : List String) :
    TakesSections names ts { body, blockParams := names }
      (some { body := other, blockParams := [] }) rest := by
  obtain ⟨hlater, hbody⟩ := hbody
  obtain ⟨hrest, hother⟩ := hother
  refine ⟨?_, ?_⟩
  · rw [List.length_cons] at hlater
    omega
  · have hisEmpty : tag.body.isEmpty = true := String.isEmpty_iff.mpr hempty
    rw [readSections]
    simp only [hbody, hkind, hisEmpty, hother, if_true]
    split
    · next second last hlast => rw [if_neg (hnoElse second last rfl)]
    · rfl

theorem takesSections_chained
    {tag : Tag} {ts behind rest : List Token} {body : List Statement} {call : Call}
    {params : List String} {main : Program} {inverse : Option Program}
    (hbody : TakesBody ts body (.tag tag :: behind)) (hkind : tag.kind = .alternative)
    (hnonempty : tag.body ≠ "") (hcall : parseCall tag.body true = .ok (call, params))
    (hinner : TakesSections params behind main inverse rest) (names : List String) :
    TakesSections names ts { body, blockParams := names }
      (some { body := [.block call main inverse tag.span], blockParams := [] }) rest := by
  obtain ⟨hlater, hbody⟩ := hbody
  obtain ⟨hrest, hinner⟩ := hinner
  refine ⟨?_, ?_⟩
  · rw [List.length_cons] at hlater
    omega
  · have hisEmpty : tag.body.isEmpty = false := by simpa using hnonempty
    rw [readSections]
    simp only [hbody, hkind, hisEmpty, Tag.call_eq_ok.mpr hcall, hinner, if_true]
    rfl

theorem TakesBody.length_le {ts rest : List Token} {body : List Statement}
    (h : TakesBody ts body rest) :
    rest.length ≤ ts.length := by
  obtain ⟨hle, -⟩ := h
  exact hle

/-! ## What is nested is read -/

mutual

/-- Statements are read as what they are, up to where statements end. -/
theorem IsBody.takes
    {ts : List Token} {body : List Statement} (h : IsBody ts body)
    {rest : List Token} (hrest : EndsBody rest) :
    TakesBody (ts ++ rest) body rest := by
  cases h with
  | nil => exact takesBody_end hrest
  | plain hfirst hbody => exact takesBody_statement hfirst (hbody.takes hrest)
  | @block tag closing inner ts call names main inverse body hopens hcall hinner hclosing hname
      hbody =>
      have hsections : TakesSections names (inner ++ .tag closing :: (ts ++ rest)) main inverse
          (.tag closing :: (ts ++ rest)) :=
        hinner.takes (.inr hclosing) (noElse_of_close hclosing _)
      have hblock : TakesBlock tag (inner ++ .tag closing :: (ts ++ rest)) call main inverse
          (ts ++ rest) :=
        takesBlock_iff.mpr ⟨names, closing, hcall, hsections, hclosing, hname⟩
      rw [List.cons_append, List.append_assoc, List.cons_append]
      exact takesBody_block hopens hblock (hbody.takes hrest)
termination_by 2 * ts.length

theorem IsSections.takes
    {names : List String} {ts : List Token} {main : Program} {inverse : Option Program}
    (h : IsSections names ts main inverse)
    {rest : List Token} (hrest : EndsBody rest) (hnoElse : NoElse rest) :
    TakesSections names (ts ++ rest) main inverse rest := by
  cases h with
  | main hbody => exact takesSections_main (hbody.takes hrest) hnoElse names
  | bare hbody hkind hempty hother =>
      rw [List.append_assoc, List.cons_append]
      exact takesSections_bare (hbody.takes (.inl hkind)) hkind hempty (hother.takes hrest)
        hnoElse names
  | chained hbody hkind hnonempty hcall hinner =>
      rw [List.append_assoc, List.cons_append]
      exact takesSections_chained (hbody.takes (.inl hkind)) hkind hnonempty hcall
        (hinner.takes hrest hnoElse) names
termination_by 2 * ts.length + 1

end

/-! ## What is read is nested -/

mutual

theorem TakesBody.isBody
    {ts rest : List Token} {body : List Statement} (h : TakesBody ts body rest) :
    EndsBody rest ∧ ∃ front, ts = front ++ rest ∧ IsBody front body := by
  obtain ⟨rfl, rfl, hends⟩ | ⟨token, later, first, tail, rfl, rfl, hfirst, htail⟩ |
    ⟨tag, inside, call, main, inverse, later, tail, rfl, rfl, hopens, hblock, htail⟩ := h.cases
  · exact ⟨hends, [], rfl, .nil⟩
  · obtain ⟨hends, front, rfl, hbody⟩ := htail.isBody
    exact ⟨hends, token :: front, rfl, .plain hfirst hbody⟩
  · obtain ⟨names, closing, hcall, hsections, hclosing, hname⟩ := takesBlock_iff.mp hblock
    obtain ⟨-, -, inner, rfl, hinner⟩ := hsections.isSections
    -- The close tag is read as well, so that what follows the block is shorter than its inside.
    have : later.length < (inner ++ .tag closing :: later).length := by simp; omega
    obtain ⟨hends, front, rfl, hbody⟩ := htail.isBody
    refine ⟨hends, .tag tag :: (inner ++ .tag closing :: front), ?_,
      .block hopens hcall hinner hclosing hname hbody⟩
    simp only [List.cons_append, List.append_assoc]
termination_by 2 * ts.length

theorem TakesSections.isSections
    {names : List String} {ts rest : List Token} {main : Program} {inverse : Option Program}
    (h : TakesSections names ts main inverse rest) :
    EndsBody rest ∧ NoElse rest ∧
      ∃ front, ts = front ++ rest ∧ IsSections names front main inverse := by
  obtain ⟨body, later, hbody, rfl, hcases⟩ := h.cases
  have := hbody.length_le
  obtain ⟨hends, front, rfl, hfront⟩ := hbody.isBody
  obtain ⟨rfl, rfl, hnoElse⟩ |
    ⟨tag, behind, other, rfl, rfl, hkind, hempty, hother, hnoElse⟩ |
    ⟨tag, behind, call, params, inner, innerInverse, rfl, rfl, hkind, hnonempty, hcall, hinner⟩ :=
    hcases
  · exact ⟨hends, hnoElse, front, rfl, .main hfront⟩
  · obtain ⟨hrest, us, rfl, hus⟩ := hother.isBody
    refine ⟨hrest, hnoElse, front ++ .tag tag :: us, ?_, .bare hfront hkind hempty hus⟩
    simp only [List.cons_append, List.append_assoc]
  · obtain ⟨hrest, hnoElse, us, rfl, hus⟩ := hinner.isSections
    refine ⟨hrest, hnoElse, front ++ .tag tag :: us, ?_,
      .chained hfront hkind hnonempty hcall hus⟩
    simp only [List.cons_append, List.append_assoc]
termination_by 2 * ts.length + 1

end

/-- What is left is what stands behind the tokens that are read. -/
theorem TakesBody.suffix {ts rest : List Token} {body : List Statement}
    (h : TakesBody ts body rest) :
    rest <:+ ts := by
  obtain ⟨-, front, rfl, -⟩ := h.isBody
  exact List.suffix_append front rest

theorem TakesSections.suffix
    {names : List String} {ts rest : List Token} {main : Program} {inverse : Option Program}
    (h : TakesSections names ts main inverse rest) :
    rest <:+ ts := by
  obtain ⟨-, -, front, rfl, -⟩ := h.isSections
  exact List.suffix_append front rest

theorem TakesBlock.suffix
    {tag : Tag} {ts rest : List Token} {call : Call} {main : Program} {inverse : Option Program}
    (h : TakesBlock tag ts call main inverse rest) :
    rest <:+ ts := by
  obtain ⟨names, closing, -, hsections, -, -⟩ := takesBlock_iff.mp h
  exact (List.suffix_cons _ _).trans hsections.suffix

/-- A program is read from tokens just where they are its statements. -/
theorem ofTokens_eq_ok {ts : List Token} {program : Program} :
    ofTokens ts = .ok program ↔ program.blockParams = [] ∧ IsBody ts program.body := by
  constructor
  · intro h
    cases hread : readBody ts with
    | error e =>
        rw [ofTokens, hread] at h
        contradiction
    | ok read =>
        obtain ⟨body, rest, hle⟩ := read
        have htakes : TakesBody ts body rest := ⟨hle, hread⟩
        obtain ⟨hends, front, rfl, hbody⟩ := htakes.isBody
        rw [ofTokens, hread] at h
        cases rest with
        | nil =>
            cases h
            rw [List.append_nil]
            exact ⟨rfl, hbody⟩
        | cons token rest =>
            cases token with
            | content text span => exact hends.elim
            | tag tag => obtain hkind | hkind := hends <;> simp [hkind, Tag.refuse] at h
  · rintro ⟨hparams, hbody⟩
    obtain ⟨body, blockParams⟩ := program
    obtain rfl : blockParams = [] := hparams
    have htakes : TakesBody ts body [] := by
      rw [← List.append_nil ts]
      exact hbody.takes trivial
    obtain ⟨hle, hread⟩ := htakes
    unfold ofTokens
    rw [hread]

/-- A template that is read is made of statements, and gives no names outside of blocks. -/
theorem exists_tokens_of_parse
    {source : String} {program : Program} (h : parse source = .ok program) :
    ∃ tokens, scan source = .ok tokens ∧ program.blockParams = [] ∧ IsBody tokens program.body := by
  unfold parse at h
  split at h
  · cases h
  · next tokens hscan =>
      split at h
      · cases h
      · next found hfound =>
          cases h
          exact ⟨tokens, hscan, ofTokens_eq_ok.mp hfound⟩

end Template
end TemplateModules
