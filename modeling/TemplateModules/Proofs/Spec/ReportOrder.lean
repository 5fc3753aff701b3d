import TemplateModules.Proofs.Spec.Uses
import TemplateModules.Proofs.Template.Marks

/-!
# The order of reports

Names are reported in the order of the tree of a template, and each for the tag that it stands in.
The tree has the order of the source, except that a block for an absent value has its two sections
exchanged.  So reports are in the order of the source just where no such block reports names in both
of its sections.
-/

namespace TemplateModules

namespace Template

open Spec Text

/-- Lookups are made for tags that start one behind another in the source, or in the same tag. -/
def InSourceOrder (ls : List Lookup) : Prop :=
  ls.Pairwise fun l m => l.tag.start ≤ m.tag.start

instance (ls : List Lookup) : Decidable (InSourceOrder ls) :=
  inferInstanceAs (Decidable (ls.Pairwise _))

/-- A tag opens a block for an absent value. -/
def ExchangesSections (source : List Char) (tag : Span) : Prop :=
  ∃ piece, slice? source tag.start tag.stop = some piece ∧ opensInverse piece = true

section

variable (options : Options) (source : List Char)

/-- Of the sections of a block that are exchanged, only one reports names. -/
def Statement.OneSided (scopes : Scopes) : Statement → Prop
  | .block _ main (some inverse) tag => ExchangesSections source tag →
      main.lookups options scopes = [] ∨ inverse.lookups options scopes = []
  | _ => True

/-- The statements of regions exchange no sections that both report names. -/
def OneSidedIn (regions : List Region) : Prop :=
  ∀ region ∈ regions, ∀ s ∈ region.body, s.OneSided options source region.scopes

end

/-! ## Lookups of tokens -/

/-- Each token starts behind those in front of it. -/
def Advances (ts : List Token) : Prop :=
  ts.Pairwise fun t u => t.span.start < u.span.start

/-- Lookups are made for tags among certain tokens, and they are in the order of the source under a
certain condition only. -/
structure Placed (ts : List Token) (ls : List Lookup) (P : Prop) : Prop where
  mem : ∀ l ∈ ls, ∃ tag, Token.tag tag ∈ ts ∧ l.tag = tag.span
  iff : InSourceOrder ls ↔ P

namespace Placed

variable {ts us : List Token} {ls ms : List Lookup} {P Q : Prop}

theorem nil (ts : List Token) : Placed ts [] True :=
  ⟨by simp, by simp [InSourceOrder]⟩

theorem mono (h : Placed ts ls P) (hsubset : ts ⊆ us) : Placed us ls P where
  mem := by
    intro l hl
    obtain ⟨tag, htag, hspan⟩ := h.mem l hl
    exact ⟨tag, hsubset htag, hspan⟩
  iff := h.iff

theorem congr (h : Placed ts ls P) (hiff : P ↔ Q) : Placed ts ls Q :=
  ⟨h.mem, h.iff.trans hiff⟩

theorem lt (hts : Placed ts ls P) (hus : Placed us ms Q) (hadvances : Advances (ts ++ us)) :
    ∀ l ∈ ls, ∀ m ∈ ms, l.tag.start < m.tag.start := by
  intro l hl m hm
  obtain ⟨first, hfirst, hl⟩ := hts.mem l hl
  obtain ⟨second, hsecond, hm⟩ := hus.mem m hm
  rw [hl, hm]
  exact (List.pairwise_append.mp hadvances).2.2 _ hfirst _ hsecond

theorem mem_append (hts : Placed ts ls P) (hus : Placed us ms Q) :
    ∀ l ∈ ls ++ ms, ∃ tag, Token.tag tag ∈ ts ++ us ∧ l.tag = tag.span := by
  intro l hl
  rcases List.mem_append.mp hl with hl | hl
  · exact (hts.mono (List.subset_append_left ..)).mem l hl
  · exact (hus.mono (List.subset_append_right ..)).mem l hl

/-- Lookups of tokens one behind another. -/
protected theorem append
    (hts : Placed ts ls P) (hus : Placed us ms Q) (hadvances : Advances (ts ++ us)) :
    Placed (ts ++ us) (ls ++ ms) (P ∧ Q) where
  mem := hts.mem_append hus
  iff := by
    have hlt := hts.lt hus hadvances
    rw [InSourceOrder, List.pairwise_append, ← hts.iff, ← hus.iff]
    constructor
    · rintro ⟨hfirst, hsecond, -⟩
      exact ⟨hfirst, hsecond⟩
    · rintro ⟨hfirst, hsecond⟩
      exact ⟨hfirst, hsecond, fun l hl m hm => (hlt l hl m hm).le⟩

/-- Lookups of tokens in the opposite order are only in order if one of the two has none. -/
theorem exchange
    (hts : Placed ts ls P) (hus : Placed us ms Q) (hadvances : Advances (ts ++ us)) :
    Placed (ts ++ us) (ms ++ ls) ((ms = [] ∨ ls = []) ∧ Q ∧ P) where
  mem := by
    intro l hl
    exact hts.mem_append hus l (List.perm_append_comm.subset hl)
  iff := by
    have hlt := hts.lt hus hadvances
    rw [InSourceOrder, List.pairwise_append, ← hts.iff, ← hus.iff]
    constructor
    · rintro ⟨hsecond, hfirst, hbetween⟩
      refine ⟨?_, hsecond, hfirst⟩
      by_contra hnone
      push Not at hnone
      obtain ⟨m, hm⟩ := List.exists_mem_of_ne_nil ms hnone.1
      obtain ⟨l, hl⟩ := List.exists_mem_of_ne_nil ls hnone.2
      exact absurd (hlt l hl m hm) (Nat.not_lt.mpr (hbetween m hm l hl))
    · rintro ⟨hnone, hsecond, hfirst⟩
      refine ⟨hsecond, hfirst, ?_⟩
      intro m hm l hl
      obtain rfl | rfl := hnone
      · cases hm
      · cases hl

end Placed

/-! ## Regions -/

section

variable {options : Options} {source : List Char} {scopes : Scopes}

theorem oneSidedIn_nil : OneSidedIn options source [] := by
  intro region hregion
  cases hregion

theorem oneSidedIn_append {rs qs : List Region} :
    OneSidedIn options source (rs ++ qs) ↔
      OneSidedIn options source rs ∧ OneSidedIn options source qs :=
  List.forall_mem_append

/-- The statements of a section and of all sections inside it exchange no sections that both report
names. -/
def OneSidedBody (options : Options) (source : List Char) (scopes : Scopes) (body : List Statement) :
    Prop :=
  OneSidedIn options source ({ scopes, body } :: bodyRegions scopes body)

theorem oneSidedIn_regions (p : Program) :
    OneSidedIn options source (p.regions scopes) ↔
      OneSidedBody options source (p.blockParams :: scopes) p.body := by
  rw [p.regions_eq, OneSidedBody]

theorem oneSidedBody_nil : OneSidedBody options source scopes [] := by
  rintro region hregion s hs
  obtain rfl := List.mem_singleton.mp hregion
  cases hs

theorem oneSidedBody_cons {s : Statement} {body : List Statement} :
    OneSidedBody options source scopes (s :: body) ↔
      (s.OneSided options source scopes ∧ OneSidedIn options source (s.regions scopes)) ∧
        OneSidedBody options source scopes body := by
  simp only [OneSidedBody, OneSidedIn, bodyRegions, List.forall_mem_cons, List.forall_mem_append]
  tauto

/-! ## Statements -/

/-- A statement reports its own names for its tag. -/
theorem span?_of_mem_ownLookups
    {s : Statement} {l : Lookup} (h : l ∈ s.ownLookups options scopes) : s.span? = some l.tag := by
  obtain ⟨tag, htag, hl⟩ := List.mem_flatMap.mp h
  obtain ⟨use, -, hl⟩ := List.mem_flatMap.mp hl
  have htag' : s.span? = some tag := Option.mem_toList.mp htag
  have hsame : l.tag = tag := by
    cases use with
    | helper name => rw [List.mem_singleton.mp hl]
    | inclusion name => rw [List.mem_singleton.mp hl]
    | value path =>
        rw [Use.lookups, Path.lookups] at hl
        split at hl
        · cases hl
        · obtain ⟨name, -, rfl⟩ := List.mem_map.mp hl
          rfl
  rw [htag', hsame]

theorem placed_ownLookups
    {s : Statement} {token : Token}
    (h : ∀ span, s.span? = some span → ∃ tag, token = .tag tag ∧ span = tag.span) :
    Placed [token] (s.ownLookups options scopes) True where
  mem := by
    intro l hl
    obtain ⟨tag, rfl, hspan⟩ := h l.tag (span?_of_mem_ownLookups hl)
    exact ⟨tag, List.mem_cons_self, hspan⟩
  iff := by
    refine iff_of_true ?_ trivial
    refine List.pairwise_of_forall_mem_list ?_
    intro l hl m hm
    have hsame := (span?_of_mem_ownLookups hl).symm.trans (span?_of_mem_ownLookups hm)
    rw [Option.some.inj hsame]

/-- A statement of one token has no sections. -/
theorem IsStatement.placed
    {token : Token} {s : Statement} (h : IsStatement token s) :
    Placed [token] (s.lookups options scopes)
      (s.OneSided options source scopes ∧ OneSidedIn options source (s.regions scopes)) := by
  have hown : s.lookups options scopes = s.ownLookups options scopes := by
    cases h <;> rfl
  have hcondition :
      s.OneSided options source scopes ∧ OneSidedIn options source (s.regions scopes) := by
    cases h <;> exact ⟨trivial, oneSidedIn_nil⟩
  have hspan : ∀ span, s.span? = some span → ∃ tag, token = .tag tag ∧ span = tag.span := by
    intro span hspan
    cases h <;> cases hspan <;> exact ⟨_, rfl, rfl⟩
  rw [hown]
  exact (placed_ownLookups hspan).congr (iff_of_true trivial hcondition)

/-- The source shows the kinds of tags. -/
def Marked (source : List Char) (ts : List Token) : Prop :=
  ∀ tag, Token.tag tag ∈ ts →
    ∃ piece, slice? source tag.span.start tag.span.stop = some piece ∧ ShowsKind tag piece

theorem Marked.mono {ts us : List Token} (h : Marked source ts) (hsubset : us ⊆ ts) :
    Marked source us :=
  fun tag htag => h tag (hsubset htag)

theorem exchangesSections_iff
    {tag : Span} {piece : List Char} (h : slice? source tag.start tag.stop = some piece) :
    ExchangesSections source tag ↔ opensInverse piece = true := by
  constructor
  · rintro ⟨found, hfound, hopens⟩
    rwa [Option.some.inj (h.symm.trans hfound)]
  · exact fun hopens => ⟨piece, h, hopens⟩

theorem Marked.exchanges
    {ts : List Token} {tag : Tag} (h : Marked source ts) (htag : .tag tag ∈ ts)
    (hkind : tag.kind = .inverse) : ExchangesSections source tag.span := by
  obtain ⟨piece, hpiece, hshows⟩ := h tag htag
  exact ⟨piece, hpiece, hshows.inverse hkind⟩

theorem Marked.not_exchanges
    {ts : List Token} {tag : Tag} (h : Marked source ts) (htag : .tag tag ∈ ts)
    (hkind : tag.kind = .block ∨ tag.kind = .alternative ∧ tag.body ≠ "") :
    ¬ExchangesSections source tag.span := by
  obtain ⟨piece, hpiece, hshows⟩ := h tag htag
  rw [exchangesSections_iff hpiece, Bool.not_eq_true]
  obtain hkind | ⟨hkind, hbody⟩ := hkind
  · exact hshows.block hkind
  · exact hshows.chained hkind hbody

/-! ## Blocks -/

/-- The lookups of the two sections of a block are made for tags one behind another. -/
structure SectionsPlaced
    (options : Options) (source : List Char) (scopes : Scopes) (front back : List Token)
    (main : Program) (inverse : Option Program) : Prop where
  main : Placed front (main.lookups options scopes)
    (OneSidedIn options source (main.regions scopes))
  inverse : Placed back (inverseLookups options scopes inverse)
    (OneSidedIn options source (inverseRegions scopes inverse))

section

variable {front back : List Token} {tag : Tag} {main : Program} {inverse : Option Program}

/-- In front of the lookups of its sections a block has its own ones, which are made for its tag. -/
theorem placed_block
    {ts : List Token} {ls : List Lookup} {P : Prop} (h : Placed ts ls P)
    (hadvances : Advances (.tag tag :: ts)) (call : Call) (main : Program)
    (inverse : Option Program) :
    Placed (.tag tag :: ts)
      ((Statement.block call main inverse tag.span).ownLookups options scopes ++ ls) P := by
  have hown : Placed [.tag tag]
      ((Statement.block call main inverse tag.span).ownLookups options scopes) True := by
    apply placed_ownLookups
    rintro span ⟨⟩
    exact ⟨tag, rfl, rfl⟩
  exact (hown.append h hadvances).congr (by rw [true_and])

/-- A block with its sections in the order of the source. -/
theorem SectionsPlaced.block
    (h : SectionsPlaced options source scopes front back main inverse)
    (hadvances : Advances (.tag tag :: (front ++ back)))
    (hkept : ¬ExchangesSections source tag.span) (call : Call) :
    Placed (.tag tag :: (front ++ back))
      ((Statement.block call main inverse tag.span).lookups options scopes)
      ((Statement.block call main inverse tag.span).OneSided options source scopes ∧
        OneSidedIn options source ((Statement.block call main inverse tag.span).regions scopes)) := by
  have hinside := h.main.append h.inverse (List.pairwise_cons.mp hadvances).2
  have hcondition : (Statement.block call main inverse tag.span).OneSided options source scopes := by
    cases inverse with
    | none => trivial
    | some other => exact fun hexchanges => absurd hexchanges hkept
  rw [Statement.lookups, Statement.regions, oneSidedIn_append]
  refine (placed_block hinside hadvances call main inverse).congr ?_
  rw [iff_and_self]
  exact fun _ => hcondition

/-- A block whose sections are exchanged. -/
theorem SectionsPlaced.exchangedBlock
    (h : SectionsPlaced options source scopes front back main inverse)
    (hadvances : Advances (.tag tag :: (front ++ back)))
    (hexchanges : ExchangesSections source tag.span) (call : Call) :
    Placed (.tag tag :: (front ++ back))
      ((Statement.block call (inverse.getD .empty) (some main) tag.span).lookups options scopes)
      ((Statement.block call (inverse.getD .empty) (some main) tag.span).OneSided options source
          scopes ∧
        OneSidedIn options source
          ((Statement.block call (inverse.getD .empty) (some main) tag.span).regions scopes)) := by
  have hlookups : (inverse.getD .empty).lookups options scopes =
      inverseLookups options scopes inverse := by
    cases inverse <;> rfl
  have hregions : OneSidedIn options source ((inverse.getD .empty).regions scopes) ↔
      OneSidedIn options source (inverseRegions scopes inverse) := by
    cases inverse with
    | none => exact iff_of_true (by rw [oneSidedIn_regions]; exact oneSidedBody_nil) oneSidedIn_nil
    | some other => exact Iff.rfl
  have hinside := h.main.exchange h.inverse (List.pairwise_cons.mp hadvances).2
  rw [Statement.lookups, Statement.regions, oneSidedIn_append, Statement.OneSided, hlookups, hregions]
  refine (placed_block hinside hadvances call _ _).congr ?_
  rw [inverseRegions, forall_prop_of_true hexchanges]

end

end

/-! ## Templates -/

section

variable {options : Options} {source : List Char}

mutual

theorem IsBody.placed
    {ts : List Token} {body : List Statement} (h : IsBody ts body) (hadvances : Advances ts)
    (hmarked : Marked source ts) (scopes : Scopes) :
    Placed ts (bodyLookups options scopes body) (OneSidedBody options source scopes body) := by
  cases h with
  | nil => exact (Placed.nil []).congr (iff_of_true trivial oneSidedBody_nil)
  | @plain token ts first body hfirst hbody =>
      have hrest := hbody.placed (List.pairwise_cons.mp hadvances).2
        (hmarked.mono (List.subset_cons_self ..)) scopes
      rw [bodyLookups, oneSidedBody_cons]
      exact hfirst.placed.append hrest hadvances
  | @block tag closing inner ts call names main inverse body hopens hcall hinner hclosing hname
      hbody =>
      have hmem : Token.tag tag ∈ .tag tag :: (inner ++ .tag closing :: ts) := List.mem_cons_self
      obtain ⟨hfirst, hinside⟩ := List.pairwise_cons.mp hadvances
      obtain ⟨hinnerAdvances, hclosingAdvances, -⟩ := List.pairwise_append.mp hinside
      have hrest := (hbody.placed (List.pairwise_cons.mp hclosingAdvances).2
        (hmarked.mono fun t ht => by simp [ht]) scopes).mono (List.subset_cons_self (.tag closing) ts)
      obtain ⟨front, back, rfl, hsections⟩ := hinner.placed hinnerAdvances
        (hmarked.mono fun t ht => List.mem_cons_of_mem _ (List.mem_append_left _ ht)) scopes
      have hblockAdvances : Advances (.tag tag :: (front ++ back)) :=
        List.pairwise_cons.mpr ⟨fun t ht => hfirst t (List.mem_append_left _ ht), hinnerAdvances⟩
      rw [bodyLookups, oneSidedBody_cons, ← List.cons_append]
      refine Placed.append ?_ hrest hadvances
      obtain hkind | hkind := hopens
      · rw [blockOf_of_block hkind]
        exact hsections.block hblockAdvances (hmarked.not_exchanges hmem (Or.inl hkind)) call
      · rw [blockOf_of_inverse hkind]
        exact hsections.exchangedBlock hblockAdvances (hmarked.exchanges hmem hkind) call
termination_by 2 * ts.length

theorem IsSections.placed
    {names : List String} {ts : List Token} {main : Program} {inverse : Option Program}
    (h : IsSections names ts main inverse) (hadvances : Advances ts) (hmarked : Marked source ts)
    (scopes : Scopes) :
    ∃ front back, ts = front ++ back ∧
      SectionsPlaced options source scopes front back main inverse := by
  cases h with
  | main hbody =>
      refine ⟨ts, [], (List.append_nil ts).symm, ?_, ?_⟩
      · rw [oneSidedIn_regions]
        exact hbody.placed hadvances hmarked (names :: scopes)
      · exact (Placed.nil []).congr (iff_of_true trivial oneSidedIn_nil)
  | @bare _ tag ts us body other hbody hkind hempty hother =>
      obtain ⟨hfront, hback, -⟩ := List.pairwise_append.mp hadvances
      have hbeside := hother.placed (List.pairwise_cons.mp hback).2 (hmarked.mono (by simp))
        ([] :: scopes)
      refine ⟨ts, .tag tag :: us, rfl, ?_, ?_⟩
      · rw [oneSidedIn_regions]
        exact hbody.placed hfront (hmarked.mono (by simp)) (names :: scopes)
      · rw [inverseRegions, oneSidedIn_regions]
        exact hbeside.mono (List.subset_cons_self ..)
  | @chained _ params tag ts us body call main inverse hbody hkind hnonempty hcall hinner =>
      have hmem : Token.tag tag ∈ ts ++ .tag tag :: us := by simp
      obtain ⟨hfront, hback, -⟩ := List.pairwise_append.mp hadvances
      obtain ⟨front, back, rfl, hsections⟩ := hinner.placed (List.pairwise_cons.mp hback).2
        (hmarked.mono (by simp)) ([] :: scopes)
      have hblock := hsections.block hback
        (hmarked.not_exchanges hmem (Or.inr ⟨hkind, hnonempty⟩)) call
      refine ⟨ts, .tag tag :: (front ++ back), rfl, ?_, ?_⟩
      · rw [oneSidedIn_regions]
        exact hbody.placed hfront (hmarked.mono (by simp)) (names :: scopes)
      · rw [inverseRegions, oneSidedIn_regions, oneSidedBody_cons, inverseLookups, Program.lookups,
          bodyLookups, bodyLookups, List.append_nil]
        exact hblock.congr (and_iff_left oneSidedBody_nil).symm
termination_by 2 * ts.length + 1

end

end

/-- The names of a template are in the order of its source just where no sections that are exchanged
both report names. -/
theorem inSourceOrder_lookups_iff
    {source : String} {program : Program} (h : parse source = .ok program) (options : Options) :
    InSourceOrder (program.lookups options []) ↔
      OneSidedIn options source.toList (program.regions []) := by
  obtain ⟨tokens, hscan, -, hbody⟩ := exists_tokens_of_parse h
  have htiles := scan_tiles hscan
  have hadvances : Advances tokens := by
    refine htiles.ordered.imp_of_mem ?_
    intro t u ht _ hordered
    exact (htiles.bounds t ht).1.trans_le hordered
  have hplaced : Placed tokens (bodyLookups options [program.blockParams] program.body)
      (OneSidedBody options source.toList [program.blockParams] program.body) :=
    hbody.placed hadvances (fun tag htag => exists_piece_of_mem_scan hscan htag) _
  rw [oneSidedIn_regions, ← hplaced.iff]
  cases program
  rw [Program.lookups]

end Template

end TemplateModules
