import TemplateModules.Proofs.Template.Blocks

/-!
# The nesting of tags

Tokens are a template just where their tags can be read one by one and are well nested.  The tree of
a template holds what each token says once.
-/

namespace TemplateModules
namespace Template

/-! ## Well nested tokens -/

/-- The expression of a tag can be read as its kind asks. -/
def Tag.Readable (tag : Tag) : Prop :=
  match tag.kind with
  | .mustache | .unescaped => ∃ read, parseCall tag.body false = .ok read
  | .block | .inverse => ∃ read, parseCall tag.body true = .ok read
  | .inclusion => ∃ p, parseInclusion tag.body = .ok p
  | .alternative => tag.body ≠ "" → ∃ read, parseCall tag.body true = .ok read
  | .close | .comment => True

/-- The text under which the block that a tag opens is closed. -/
def Tag.closingText? (tag : Tag) : Option String :=
  (parseCall tag.body true).toOption.map fun (call, _) => call.head.closingText

/-- A token is no part of the frame of a block. -/
def Token.IsPlain : Token → Prop
  | .content _ _ => True
  | .tag t => t.kind ∈ [.mustache, .unescaped, .inclusion, .comment]

mutual

/-- Each tag that opens a block is closed under its name, and no `else` or close tag stands outside
of a block. -/
inductive WellNested : List Token → Prop where
  | nil : WellNested []
  | plain {token : Token} {ts : List Token} (htoken : token.IsPlain) (hts : WellNested ts) :
      WellNested (token :: ts)
  | block {tag closing : Tag} {inner ts : List Token}
      (hopens : tag.Opens)
      (hinner : WellNestedSections inner)
      (hclosing : closing.kind = .close)
      (hname : tag.closingText? = some closing.body)
      (hts : WellNested ts) :
      WellNested (.tag tag :: (inner ++ .tag closing :: ts))

/-- The sections of a block: chained `else` tags divide them, and then perhaps a bare one. -/
inductive WellNestedSections : List Token → Prop where
  | main {ts : List Token} (hts : WellNested ts) : WellNestedSections ts
  | bare {tag : Tag} {ts us : List Token}
      (hts : WellNested ts)
      (hkind : tag.kind = .alternative)
      (hbody : tag.body = "")
      (hus : WellNested us) :
      WellNestedSections (ts ++ .tag tag :: us)
  | chained {tag : Tag} {ts us : List Token}
      (hts : WellNested ts)
      (hkind : tag.kind = .alternative)
      (hbody : tag.body ≠ "")
      (hus : WellNestedSections us) :
      WellNestedSections (ts ++ .tag tag :: us)

end

/-! ## Readable and well nested tokens -/

/-- All tags among certain tokens can be read. -/
def AllReadable (ts : List Token) : Prop :=
  ∀ tag, Token.tag tag ∈ ts → tag.Readable

@[simp]
theorem allReadable_nil : AllReadable [] := by
  intro tag htag
  contradiction

@[simp]
theorem allReadable_append {ts us : List Token} :
    AllReadable (ts ++ us) ↔ AllReadable ts ∧ AllReadable us := by
  simp only [AllReadable, List.mem_append, or_imp, forall_and]

@[simp]
theorem allReadable_content {text : String} {span : Span} {ts : List Token} :
    AllReadable (.content text span :: ts) ↔ AllReadable ts := by
  simp [AllReadable]

@[simp]
theorem allReadable_tag {tag : Tag} {ts : List Token} :
    AllReadable (.tag tag :: ts) ↔ tag.Readable ∧ AllReadable ts := by
  simp [AllReadable]

theorem Tag.Opens.readable_iff {tag : Tag} (h : tag.Opens) :
    tag.Readable ↔ ∃ read, parseCall tag.body true = .ok read := by
  unfold Tag.Readable
  obtain hkind | hkind := h
  · rw [hkind]
  · rw [hkind]

theorem readable_of_alternative {tag : Tag} (h : tag.kind = .alternative) :
    tag.Readable ↔ (tag.body ≠ "" → ∃ read, parseCall tag.body true = .ok read) := by
  rw [Tag.Readable, h]

theorem readable_of_close {tag : Tag} (h : tag.kind = .close) : tag.Readable := by
  rw [Tag.Readable, h]
  trivial

theorem Tag.closingText?_of_parseCall {tag : Tag} {call : Call} {names : List String}
    (h : parseCall tag.body true = .ok (call, names)) :
    tag.closingText? = some call.head.closingText := by
  rw [Tag.closingText?, h]
  rfl

theorem IsStatement.isPlain {token : Token} {first : Statement} (h : IsStatement token first) :
    token.IsPlain ∧ AllReadable [token] := by
  cases h with
  | content text span => simp [Token.IsPlain]
  | comment hkind => simp [Token.IsPlain, Tag.Readable, hkind]
  | mustache hkind hcall => simp [Token.IsPlain, Tag.Readable, hkind, hcall]
  | unescaped hkind hcall => simp [Token.IsPlain, Tag.Readable, hkind, hcall]
  | inclusion hkind hp => simp [Token.IsPlain, Tag.Readable, hkind, hp]

theorem exists_isStatement {token : Token} (hplain : token.IsPlain) (hread : AllReadable [token]) :
    ∃ first, IsStatement token first := by
  cases token with
  | content text span => exact ⟨_, .content text span⟩
  | tag tag =>
      have hread : tag.Readable := hread tag List.mem_cons_self
      unfold Tag.Readable at hread
      cases hkind : tag.kind with
      | mustache =>
          rw [hkind] at hread
          obtain ⟨⟨call, names⟩, hcall⟩ := hread
          exact ⟨_, .mustache hkind hcall⟩
      | unescaped =>
          rw [hkind] at hread
          obtain ⟨⟨call, names⟩, hcall⟩ := hread
          exact ⟨_, .unescaped hkind hcall⟩
      | inclusion =>
          rw [hkind] at hread
          obtain ⟨p, hp⟩ := hread
          exact ⟨_, .inclusion hkind hp⟩
      | comment => exact ⟨_, .comment hkind⟩
      | block => simp [Token.IsPlain, hkind] at hplain
      | inverse => simp [Token.IsPlain, hkind] at hplain
      | close => simp [Token.IsPlain, hkind] at hplain
      | alternative => simp [Token.IsPlain, hkind] at hplain

mutual

theorem IsBody.wellNested {ts : List Token} {body : List Statement} (h : IsBody ts body) :
    WellNested ts ∧ AllReadable ts := by
  cases h with
  | nil => exact ⟨.nil, allReadable_nil⟩
  | @plain token ts first body hfirst hbody =>
      obtain ⟨hplain, hread⟩ := hfirst.isPlain
      obtain ⟨hts, hreads⟩ := hbody.wellNested
      exact ⟨.plain hplain hts, allReadable_append.mpr ⟨hread, hreads⟩⟩
  | block hopens hcall hinner hclosing hname hbody =>
      obtain ⟨hsections, hreads⟩ := hinner.wellNested
      obtain ⟨hts, hmore⟩ := hbody.wellNested
      constructor
      · apply WellNested.block hopens hsections hclosing ?_ hts
        rw [hname]
        exact Tag.closingText?_of_parseCall hcall
      · simp only [allReadable_tag, allReadable_append]
        exact ⟨hopens.readable_iff.mpr ⟨_, hcall⟩, hreads, readable_of_close hclosing, hmore⟩
termination_by 2 * ts.length

theorem IsSections.wellNested
    {names : List String} {ts : List Token} {main : Program} {inverse : Option Program}
    (h : IsSections names ts main inverse) :
    WellNestedSections ts ∧ AllReadable ts := by
  cases h with
  | main hbody =>
      obtain ⟨hts, hreads⟩ := hbody.wellNested
      exact ⟨.main hts, hreads⟩
  | bare hbody hkind hempty hother =>
      obtain ⟨hts, hreads⟩ := hbody.wellNested
      obtain ⟨hus, hmore⟩ := hother.wellNested
      refine ⟨.bare hts hkind hempty hus, ?_⟩
      simp only [allReadable_tag, allReadable_append]
      exact ⟨hreads, (readable_of_alternative hkind).mpr fun hbody => absurd hempty hbody, hmore⟩
  | chained hbody hkind hnonempty hcall hinner =>
      obtain ⟨hts, hreads⟩ := hbody.wellNested
      obtain ⟨hus, hmore⟩ := hinner.wellNested
      refine ⟨.chained hts hkind hnonempty hus, ?_⟩
      simp only [allReadable_tag, allReadable_append]
      exact ⟨hreads, (readable_of_alternative hkind).mpr fun _ => ⟨_, hcall⟩, hmore⟩
termination_by 2 * ts.length + 1

end

mutual

theorem WellNested.exists_isBody {ts : List Token} (h : WellNested ts) (hreads : AllReadable ts) :
    ∃ body, IsBody ts body := by
  cases h with
  | nil => exact ⟨[], .nil⟩
  | @plain token ts htoken hts =>
      obtain ⟨hread, hmore⟩ := allReadable_append.mp (show AllReadable ([token] ++ ts) from hreads)
      obtain ⟨first, hfirst⟩ := exists_isStatement htoken hread
      obtain ⟨body, hbody⟩ := hts.exists_isBody hmore
      exact ⟨first :: body, .plain hfirst hbody⟩
  | @block tag closing inner ts hopens hinner hclosing hname hts =>
      simp only [allReadable_tag, allReadable_append] at hreads
      obtain ⟨hread, hsections, -, hmore⟩ := hreads
      obtain ⟨⟨call, names⟩, hcall⟩ := hopens.readable_iff.mp hread
      obtain ⟨main, inverse, hinner⟩ := hinner.exists_isSections hsections names
      obtain ⟨body, hbody⟩ := hts.exists_isBody hmore
      rw [Tag.closingText?_of_parseCall hcall, Option.some.injEq] at hname
      exact ⟨_, .block hopens hcall hinner hclosing hname.symm hbody⟩
termination_by 2 * ts.length

theorem WellNestedSections.exists_isSections
    {ts : List Token} (h : WellNestedSections ts) (hreads : AllReadable ts) (names : List String) :
    ∃ main inverse, IsSections names ts main inverse := by
  cases h with
  | main hts =>
      obtain ⟨body, hbody⟩ := hts.exists_isBody hreads
      exact ⟨_, _, .main hbody⟩
  | bare hts hkind hbody hus =>
      simp only [allReadable_tag, allReadable_append] at hreads
      obtain ⟨body, hmain⟩ := hts.exists_isBody hreads.1
      obtain ⟨other, hother⟩ := hus.exists_isBody hreads.2.2
      exact ⟨_, _, .bare hmain hkind hbody hother⟩
  | chained hts hkind hbody hus =>
      simp only [allReadable_tag, allReadable_append] at hreads
      obtain ⟨hmain, hread, hmore⟩ := hreads
      obtain ⟨body, hmain⟩ := hts.exists_isBody hmain
      obtain ⟨⟨call, params⟩, hcall⟩ := (readable_of_alternative hkind).mp hread hbody
      obtain ⟨main, inverse, hinner⟩ := hus.exists_isSections hmore params
      exact ⟨_, _, .chained hmain hkind hbody hcall hinner⟩
termination_by 2 * ts.length + 1

end

/-! ## What a tree holds -/

/-- What a token contributes to a tree, and a statement without the programs inside it. -/
inductive Item where
  | content (text : String)
  | comment (text : String)
  | mustache (call : Call) (escaped : Bool) (span : Span)
  | opening (call : Call) (span : Span)
  | inclusion (name : String) (context : Option Expr) (hash : List (String × Expr)) (span : Span)

/-- The item of a token that can be read.  Close tags and bare `else` tags have none. -/
def Token.item? : Token → Option Item
  | .content text _ => some (.content text)
  | .tag t =>
      match t.kind with
      | .comment => some (.comment t.body)
      | .mustache =>
          (parseCall t.body false).toOption.map fun (call, _) => .mustache call true t.span
      | .unescaped =>
          (parseCall t.body false).toOption.map fun (call, _) => .mustache call false t.span
      | .inclusion =>
          (parseInclusion t.body).toOption.map fun p => .inclusion p.name p.context p.hash t.span
      | .block | .inverse =>
          (parseCall t.body true).toOption.map fun (call, _) => .opening call t.span
      | .alternative =>
          if t.body = "" then none
          else (parseCall t.body true).toOption.map fun (call, _) => .opening call t.span
      | .close => none

mutual

/-- The items of a program in the order of its tree. -/
def Program.items : Program → List Item
  | { body, .. } => itemsOf body

def itemsOf : List Statement → List Item
  | [] => []
  | s :: body => s.items ++ itemsOf body

def Statement.items : Statement → List Item
  | .content text => [.content text]
  | .comment text => [.comment text]
  | .mustache call escaped span => [.mustache call escaped span]
  | .block call main inverse span => .opening call span :: (main.items ++ inverseItems inverse)
  | .inclusion name context hash span => [.inclusion name context hash span]

def inverseItems : Option Program → List Item
  | none => []
  | some inverse => inverse.items

end

/-- No tag opens an inverse block. -/
def NoInverse (ts : List Token) : Prop :=
  ∀ tag, Token.tag tag ∈ ts → tag.kind ≠ .inverse

@[simp]
theorem noInverse_append {ts us : List Token} :
    NoInverse (ts ++ us) ↔ NoInverse ts ∧ NoInverse us := by
  simp only [NoInverse, List.mem_append, or_imp, forall_and]

theorem NoInverse.tail {token : Token} {ts : List Token} (h : NoInverse (token :: ts)) :
    NoInverse ts := by
  intro tag htag
  exact h tag (List.mem_cons_of_mem _ htag)

/-- A tree holds the items of certain tokens, each as often as they do, and in their order where
no tag opens an inverse block. -/
def Holds (items : List Item) (ts : List Token) : Prop :=
  items.Perm (ts.filterMap Token.item?) ∧ (NoInverse ts → items = ts.filterMap Token.item?)

theorem Holds.append
    {items items' : List Item} {ts ts' : List Token}
    (h : Holds items ts) (h' : Holds items' ts') :
    Holds (items ++ items') (ts ++ ts') := by
  constructor
  · rw [List.filterMap_append]
    exact h.1.append h'.1
  · intro hts
    rw [noInverse_append] at hts
    rw [List.filterMap_append, h.2 hts.1, h'.2 hts.2]

theorem holds_nil : Holds [] [] :=
  ⟨.nil, fun _ => rfl⟩

/-- A token that has no item may stand in front. -/
theorem Holds.skip
    {items : List Item} {ts : List Token} {token : Token}
    (h : Holds items ts) (htoken : token.item? = none) :
    Holds items (token :: ts) := by
  constructor
  · rw [List.filterMap_cons_none htoken]
    exact h.1
  · intro hts
    rw [List.filterMap_cons_none htoken]
    exact h.2 hts.tail

theorem Holds.cons
    {items : List Item} {ts : List Token} {token : Token} {item : Item}
    (h : Holds items ts) (htoken : token.item? = some item) :
    Holds (item :: items) (token :: ts) := by
  constructor
  · rw [List.filterMap_cons_some htoken]
    exact h.1.cons item
  · intro hts
    rw [List.filterMap_cons_some htoken, h.2 hts.tail]

theorem IsStatement.items {token : Token} {first : Statement} (h : IsStatement token first) :
    ∃ item, token.item? = some item ∧ first.items = [item] := by
  cases h with
  | content text span => exact ⟨_, rfl, rfl⟩
  | comment hkind => exact ⟨_, by simp only [Token.item?, hkind], rfl⟩
  | mustache hkind hcall => exact ⟨_, by simp only [Token.item?, hkind, hcall]; rfl, rfl⟩
  | unescaped hkind hcall => exact ⟨_, by simp only [Token.item?, hkind, hcall]; rfl, rfl⟩
  | inclusion hkind hp => exact ⟨_, by simp only [Token.item?, hkind, hp]; rfl, rfl⟩

/-- A block holds the items of its sections behind its own. -/
theorem holds_blockOf
    {tag : Tag} {call : Call} {names : List String} {main : Program} {inverse : Option Program}
    {inner : List Token}
    (hopens : tag.Opens)
    (hcall : parseCall tag.body true = .ok (call, names))
    (hinner : Holds (main.items ++ inverseItems inverse) inner) :
    Holds (blockOf tag call main inverse).items (.tag tag :: inner) := by
  have hitem : (Token.tag tag).item? = some (.opening call tag.span) := by
    obtain hkind | hkind := hopens <;> simp only [Token.item?, hkind, hcall] <;> rfl
  obtain hkind | hkind := hopens
  · rw [blockOf_of_block hkind, Statement.items]
    exact hinner.cons hitem
  · have hinverse : (inverse.getD .empty).items = inverseItems inverse := by
      cases inverse with
      | none => rfl
      | some inverse => rfl
    -- The sections change places, and so do their items.
    rw [blockOf_of_inverse hkind, Statement.items, hinverse]
    constructor
    · rw [List.filterMap_cons_some hitem]
      exact (List.perm_append_comm.trans hinner.1).cons _
    · intro hnone
      exact absurd hkind (hnone tag List.mem_cons_self)

mutual

theorem IsBody.holds {ts : List Token} {body : List Statement} (h : IsBody ts body) :
    Holds (itemsOf body) ts := by
  cases h with
  | nil => exact holds_nil
  | plain hfirst hbody =>
      obtain ⟨item, hitem, hitems⟩ := hfirst.items
      rw [itemsOf, hitems]
      exact hbody.holds.cons hitem
  | @block tag closing inner ts call names main inverse body hopens hcall hinner hclosing hname
      hbody =>
      have hnone : (Token.tag closing).item? = none := by
        simp only [Token.item?, hclosing]
      rw [itemsOf]
      exact (holds_blockOf hopens hcall hinner.holds).append (hbody.holds.skip hnone)
termination_by 2 * ts.length

theorem IsSections.holds
    {names : List String} {ts : List Token} {main : Program} {inverse : Option Program}
    (h : IsSections names ts main inverse) :
    Holds (main.items ++ inverseItems inverse) ts := by
  cases h with
  | main hbody =>
      rw [Program.items, inverseItems, List.append_nil]
      exact hbody.holds
  | @bare _ tag ts us body other hbody hkind hempty hother =>
      have hnone : (Token.tag tag).item? = none := by
        simp only [Token.item?, hkind, hempty, if_true]
      rw [Program.items, inverseItems, Program.items]
      exact hbody.holds.append (hother.holds.skip hnone)
  | @chained _ params tag ts us body call main inverse hbody hkind hnonempty hcall hinner =>
      have hitem : (Token.tag tag).item? = some (.opening call tag.span) := by
        simp only [Token.item?, hkind, if_neg hnonempty, hcall]
        rfl
      rw [Program.items, inverseItems, Program.items, itemsOf, itemsOf, Statement.items,
        List.append_nil]
      exact hbody.holds.append (hinner.holds.cons hitem)
termination_by 2 * ts.length + 1

end

theorem toOption_ne_none {ε α : Type} {x : Except ε α} (h : ∃ read, x = .ok read) :
    x.toOption ≠ none := by
  obtain ⟨read, rfl⟩ := h
  exact Option.some_ne_none read

/-- Only close tags and bare `else` tags contribute nothing to a tree. -/
theorem item?_eq_none_iff {tag : Tag} (h : tag.Readable) :
    (Token.tag tag).item? = none ↔
      tag.kind = .close ∨ tag.kind = .alternative ∧ tag.body = "" := by
  unfold Tag.Readable at h
  unfold Token.item?
  cases hkind : tag.kind with
  | comment => simp [hkind]
  | close => simp [hkind]
  | alternative =>
      rw [hkind] at h
      by_cases hbody : tag.body = ""
      · simp [hkind, hbody]
      · simp [hkind, hbody, toOption_ne_none (h hbody)]
  | mustache | unescaped | inclusion | block | inverse =>
      rw [hkind] at h
      simp [hkind, toOption_ne_none h]

/-- Tokens are a program just where their tags can be read and are well nested.  The program is the
tree of the tokens, and it holds what each of them says once. -/
theorem ofTokens_nested (ts : List Token) :
    ((∃ program, ofTokens ts = .ok program) ↔ AllReadable ts ∧ WellNested ts) ∧
    ∀ program,
      ofTokens ts = .ok program ↔
        program.blockParams = [] ∧
        IsBody ts program.body ∧
        program.items.Perm (ts.filterMap Token.item?) ∧
        (NoInverse ts → program.items = ts.filterMap Token.item?) ∧
        ∀ tag, Token.tag tag ∈ ts →
          ((Token.tag tag).item? = none ↔
            tag.kind = .close ∨ tag.kind = .alternative ∧ tag.body = "") := by
  constructor
  · constructor
    · rintro ⟨program, h⟩
      obtain ⟨-, hbody⟩ := ofTokens_eq_ok.mp h
      obtain ⟨hnested, hreads⟩ := hbody.wellNested
      exact ⟨hreads, hnested⟩
    · rintro ⟨hreads, hnested⟩
      obtain ⟨body, hbody⟩ := hnested.exists_isBody hreads
      exact ⟨{ body, blockParams := [] }, ofTokens_eq_ok.mpr ⟨rfl, hbody⟩⟩
  · intro program
    have hitems : program.items = itemsOf program.body := by
      cases program
      rfl
    rw [ofTokens_eq_ok, hitems]
    constructor
    · rintro ⟨hparams, hbody⟩
      obtain ⟨hperm, horder⟩ := hbody.holds
      obtain ⟨-, hreads⟩ := hbody.wellNested
      exact ⟨hparams, hbody, hperm, horder, fun tag htag => item?_eq_none_iff (hreads tag htag)⟩
    · rintro ⟨hparams, hbody, -⟩
      exact ⟨hparams, hbody⟩

end Template
end TemplateModules
