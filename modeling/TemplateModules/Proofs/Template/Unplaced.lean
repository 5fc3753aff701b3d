import TemplateModules.Proofs.Template.Relaid

/-!
# Trees up to their spans

Tokens that are the same up to their spans and to the blanks in tags are the same tree up to the
spans in it, or no tree both.
-/

namespace TemplateModules
namespace Template

/-! ## Trees without spans -/

mutual

/-- A program without the spans of its tags. -/
def Program.unplaced : Program → Program
  | { body, blockParams } => { body := unplacedBody body, blockParams }

def unplacedBody : List Statement → List Statement
  | [] => []
  | s :: rest => s.unplaced :: unplacedBody rest

def Statement.unplaced : Statement → Statement
  | .content text => .content text
  | .comment text => .comment text
  | .mustache call escaped _ => .mustache call escaped .unplaced
  | .block call main inverse _ =>
      .block call main.unplaced (unplacedInverse inverse) .unplaced
  | .inclusion name context hash _ => .inclusion name context hash .unplaced

def unplacedInverse : Option Program → Option Program
  | none => none
  | some inverse => some inverse.unplaced

end

theorem unplaced_blockOf
    {tag tag' : Tag} {call : Call} {main main' : Program} {inverse inverse' : Option Program}
    (hkind : tag'.kind = tag.kind) (hmain : main'.unplaced = main.unplaced)
    (hinverse : unplacedInverse inverse' = unplacedInverse inverse) :
    (blockOf tag' call main' inverse').unplaced = (blockOf tag call main inverse).unplaced := by
  have hgetD (p : Option Program) :
      (p.getD .empty).unplaced = (unplacedInverse p).getD .empty := by
    cases p <;> rfl
  unfold blockOf
  rw [hkind]
  split
  · simp only [Statement.unplaced, unplacedInverse, hgetD, hmain, hinverse]
  · simp only [Statement.unplaced, hmain, hinverse]

/-! ## Calls of tags -/

theorem parseCall_congr {body body' : String} (h : Lexeme.ofBody body' = Lexeme.ofBody body)
    (allowed : Bool) :
    parseCall body' allowed = parseCall body allowed := by
  rw [parseCall, parseCall, h]

theorem parseInclusion_congr
    {body body' : String} (h : Lexeme.ofBody body' = Lexeme.ofBody body) :
    parseInclusion body' = parseInclusion body := by
  rw [parseInclusion, parseInclusion, h]

/-- Tokens open a block under a certain name. -/
def OpensUnder (ts : List Token) (name : String) : Prop :=
  ∃ tag call names,
    Token.tag tag ∈ ts ∧ tag.Opens ∧ parseCall tag.body true = .ok (call, names) ∧
      call.head.closingText = name

theorem OpensUnder.mono {ts us : List Token} {name : String} (h : OpensUnder ts name)
    (hsub : ts ⊆ us) : OpensUnder us name := by
  obtain ⟨tag, call, names, htag, hopens⟩ := h
  exact ⟨tag, call, names, hsub htag, hopens⟩

section

variable {Opened : String → Prop} {ts ts' : List Token}

theorem Tag.Relaid.symm {tag tag' : Tag} (h : tag.Relaid Opened tag') : tag'.Relaid Opened tag where
  kind := h.kind.symm
  strip := h.strip.symm
  lexemes := h.lexemes.symm
  empty := h.empty.symm
  comment hkind := (h.comment (h.kind ▸ hkind)).symm
  close hkind name hname := (h.close (h.kind ▸ hkind) name hname).symm

theorem Token.Relaid.symm {token token' : Token} (h : token.Relaid Opened token') :
    token'.Relaid Opened token := by
  cases h with
  | content text span span' => exact .content text span' span
  | tag htag => exact .tag htag.symm

theorem RelaidTokens.symm (h : RelaidTokens Opened ts ts') : RelaidTokens Opened ts' ts :=
  (h.imp fun _ _ htoken => htoken.symm).flip

/-- Tokens behind which a tag stands are related to such tokens. -/
theorem RelaidTokens.split {us vs : List Token} {tag : Tag}
    (h : RelaidTokens Opened (ts ++ .tag tag :: us) vs) :
    ∃ ts' tag' us',
      vs = ts' ++ .tag tag' :: us' ∧ RelaidTokens Opened ts ts' ∧ tag.Relaid Opened tag' ∧
        RelaidTokens Opened us us' := by
  induction ts generalizing vs with
  | nil =>
      cases h with
      | cons hfirst hrest =>
          cases hfirst with
          | tag htag => exact ⟨[], _, _, rfl, .nil, htag, hrest⟩
  | cons token ts ih =>
      cases h with
      | cons hfirst hrest =>
          obtain ⟨ts', tag', us', rfl, hts, htag, hus⟩ := ih hrest
          exact ⟨_ :: ts', tag', us', rfl, .cons hfirst hts, htag, hus⟩

theorem OpensUnder.relaid {name : String} (h : OpensUnder ts name)
    (hts : RelaidTokens Opened ts ts') :
    OpensUnder ts' name := by
  obtain ⟨tag, call, names, htag, hopens, hcall, hname⟩ := h
  obtain ⟨before, behind, rfl⟩ := List.append_of_mem htag
  obtain ⟨before', tag', behind', rfl, -, hrelaid, -⟩ := hts.split
  refine ⟨tag', call, names, by simp, ?_, ?_, hname⟩
  · rwa [Tag.Opens, hrelaid.kind]
  · rwa [parseCall_congr hrelaid.lexemes]

/-! ## Trees of tokens -/

theorem IsStatement.relaid
    {token token' : Token} {s : Statement} (h : IsStatement token s)
    (htoken : token.Relaid Opened token') :
    ∃ s', IsStatement token' s' ∧ s'.unplaced = s.unplaced := by
  cases htoken with
  | content text span span' =>
      cases h with
      | content => exact ⟨_, .content text span', rfl⟩
  | tag htag =>
      cases h with
      | comment hkind =>
          refine ⟨_, .comment (htag.kind.trans hkind), ?_⟩
          rw [htag.comment hkind]
      | mustache hkind hcall =>
          rw [← parseCall_congr htag.lexemes] at hcall
          exact ⟨_, .mustache (htag.kind.trans hkind) hcall, rfl⟩
      | unescaped hkind hcall =>
          rw [← parseCall_congr htag.lexemes] at hcall
          exact ⟨_, .unescaped (htag.kind.trans hkind) hcall, rfl⟩
      | inclusion hkind hp =>
          rw [← parseInclusion_congr htag.lexemes] at hp
          exact ⟨_, .inclusion (htag.kind.trans hkind) hp, rfl⟩

mutual

/-- Related tokens are the same statements up to spans, as long as close tags close the blocks that
are opened. -/
theorem IsBody.relaid
    {ts ts' : List Token} {body : List Statement} (h : IsBody ts body)
    (hopened : ∀ name, OpensUnder ts name → Opened name) (hts : RelaidTokens Opened ts ts') :
    ∃ body', IsBody ts' body' ∧ unplacedBody body' = unplacedBody body := by
  cases h with
  | nil =>
      cases hts
      exact ⟨[], .nil, rfl⟩
  | @plain token ts first body hfirst hbody =>
      cases hts with
      | cons htoken hrest =>
          obtain ⟨first', hfirst', hplaces⟩ := hfirst.relaid htoken
          obtain ⟨body', hbody', hunplaced⟩ :=
            hbody.relaid (fun name h => hopened name (h.mono (List.subset_cons_self _ _))) hrest
          refine ⟨first' :: body', .plain hfirst' hbody', ?_⟩
          rw [unplacedBody, unplacedBody, hplaces, hunplaced]
  | @block tag closing inner ts call names main inverse body hopens hcall hinner hclosing hname
      hbody =>
      cases hts with
      | cons htoken hbehind =>
          cases htoken with
          | @tag _ tag' htag =>
              obtain ⟨inner', closing', rest', rfl, hinside, hclosed, hrest⟩ :=
                RelaidTokens.split hbehind
              have hinnerSub : inner ⊆ .tag tag :: (inner ++ .tag closing :: ts) := by
                intro token htoken
                simp [htoken]
              have hrestSub : ts ⊆ .tag tag :: (inner ++ .tag closing :: ts) := by
                intro token htoken
                simp [htoken]
              obtain ⟨main', inverse', hinner', hmain, hinverse⟩ :=
                hinner.relaid (fun name h => hopened name (h.mono hinnerSub)) hinside
              obtain ⟨body', hbody', hunplaced⟩ :=
                hbody.relaid (fun name h => hopened name (h.mono hrestSub)) hrest
              have hopens' : tag'.Opens := by rwa [Tag.Opens, htag.kind]
              have hcall' : parseCall tag'.body true = .ok (call, names) := by
                rwa [parseCall_congr htag.lexemes]
              have hunder : Opened call.head.closingText :=
                hopened _ ⟨tag, call, names, List.mem_cons_self, hopens, hcall, rfl⟩
              have hname' := (hclosed.close hclosing _ hunder).mpr hname
              have hclosing' := hclosed.kind.trans hclosing
              refine ⟨_, .block hopens' hcall' hinner' hclosing' hname' hbody', ?_⟩
              rw [unplacedBody, unplacedBody, unplaced_blockOf htag.kind hmain hinverse, hunplaced]
termination_by 2 * ts.length

theorem IsSections.relaid
    {names : List String} {ts ts' : List Token} {main : Program} {inverse : Option Program}
    (h : IsSections names ts main inverse)
    (hopened : ∀ name, OpensUnder ts name → Opened name) (hts : RelaidTokens Opened ts ts') :
    ∃ main' inverse', IsSections names ts' main' inverse' ∧ main'.unplaced = main.unplaced ∧
      unplacedInverse inverse' = unplacedInverse inverse := by
  cases h with
  | main hbody =>
      obtain ⟨body', hbody', hunplaced⟩ := hbody.relaid hopened hts
      refine ⟨_, _, .main hbody', ?_, rfl⟩
      rw [Program.unplaced, Program.unplaced, hunplaced]
  | @bare _ tag ts us body other hbody hkind hempty hother =>
      obtain ⟨ts', tag', us', rfl, hbefore, htag, hbehind⟩ := hts.split
      obtain ⟨body', hbody', hunplaced⟩ := hbody.relaid
        (fun name h => hopened name (h.mono (List.subset_append_left _ _))) hbefore
      obtain ⟨other', hother', hunplaced'⟩ := hother.relaid
        (fun name h => hopened name (h.mono (fun token htoken => by simp [htoken]))) hbehind
      refine ⟨_, _, .bare hbody' (htag.kind.trans hkind) (htag.empty.mpr hempty) hother', ?_, ?_⟩
      · rw [Program.unplaced, Program.unplaced, hunplaced]
      · simp only [unplacedInverse, Program.unplaced, hunplaced']
  | @chained _ params tag ts us body call main inverse hbody hkind hnonempty hcall hinner =>
      obtain ⟨ts', tag', us', rfl, hbefore, htag, hbehind⟩ := hts.split
      obtain ⟨body', hbody', hunplaced⟩ := hbody.relaid
        (fun name h => hopened name (h.mono (List.subset_append_left _ _))) hbefore
      obtain ⟨main', inverse', hinner', hmain, hinverse⟩ := hinner.relaid
        (fun name h => hopened name (h.mono (fun token htoken => by simp [htoken]))) hbehind
      have hcall' : parseCall tag'.body true = .ok (call, params) := by
        rwa [parseCall_congr htag.lexemes]
      refine ⟨_, _, .chained hbody' (htag.kind.trans hkind) (mt htag.empty.mp hnonempty) hcall'
        hinner', ?_, ?_⟩
      · rw [Program.unplaced, Program.unplaced, hunplaced]
      · simp only [unplacedInverse, Program.unplaced, unplacedBody, Statement.unplaced, hmain,
          hinverse]
termination_by 2 * ts.length + 1

end

/-- A program of tokens is one of related tokens up to spans. -/
theorem ofTokens_relaid
    {program : Program} (h : ofTokens ts = .ok program)
    (hopened : ∀ name, OpensUnder ts name → Opened name) (hts : RelaidTokens Opened ts ts') :
    ∃ program', ofTokens ts' = .ok program' ∧ program'.unplaced = program.unplaced := by
  obtain ⟨hparams, hbody⟩ := ofTokens_eq_ok.mp h
  obtain ⟨body', hbody', hunplaced⟩ := hbody.relaid hopened hts
  refine ⟨{ body := body', blockParams := [] }, ofTokens_eq_ok.mpr ⟨rfl, hbody'⟩, ?_⟩
  obtain ⟨body, blockParams⟩ := program
  obtain rfl : blockParams = [] := hparams
  rw [Program.unplaced, Program.unplaced, hunplaced]

/-- Sources whose scans are alike are the same program up to spans, or both none. -/
theorem ScansAlike.parse
    {source source' : String} (h : ScansAlike Opened (scan source) (scan source'))
    (hopened : ∀ tokens name, scan source = .ok tokens → OpensUnder tokens name → Opened name) :
    EndsAlike (fun program program' => program'.unplaced = program.unplaced)
      (parse source) (parse source') := by
  rw [Template.parse, Template.parse]
  generalize scan source = scanned at h hopened ⊢
  generalize scan source' = scanned' at h ⊢
  cases h with
  | refused e e' => exact .refused e e'
  | backwards => exact .backwards
  | @ok ts ts' hts =>
      have hopens := fun name hname => hopened ts name rfl hname
      have hopens' : ∀ name, OpensUnder ts' name → Opened name :=
        fun name hname => hopens name (hname.relaid hts.symm)
      cases hread : ofTokens ts with
      | ok program =>
          obtain ⟨program', hread', hunplaced⟩ := ofTokens_relaid hread hopens hts
          simp only [hread, hread']
          exact .ok hunplaced
      | error e =>
          cases hread' : ofTokens ts' with
          | error e' =>
              simp only [hread, hread']
              exact .refused e e'
          | ok program' =>
              obtain ⟨program, hread'', -⟩ := ofTokens_relaid hread' hopens' hts.symm
              cases hread''.symm.trans hread

end

end Template
end TemplateModules
