import TemplateModules.Proofs.Script.Scan
import TemplateModules.Proofs.Text.Digits
import TemplateModules.Spec.Text

/-!
# What generated code mentions

Generated code reaches helpers, partials, numbered sections, outer contexts and block parameters in
six fixed ways.  A mention is such a way, and it occurs in a script where its text stands outside of
string literals.

The main result is a calculus for the mentions of a script that is written piece by piece.  What
`Mentions` says of a piece holds whatever follows it, so two pieces can be put together.  A piece
that only starts a mention is never a piece of its own.
-/

namespace TemplateModules
namespace Spec

open Script Text

inductive MentionKind where
  | helper
  | inclusion
  | child
  | outer
  | blockParam
  | invocation
  deriving DecidableEq, Repr

/-- How the mentions of a kind start. -/
def MentionKind.head : MentionKind → List Char
  | helper => "lookupProperty(helpers,".toList
  | inclusion => "lookupProperty(partials,".toList
  | child => "container.program(".toList
  | outer => "depths[".toList
  | blockParam => "blockParams[".toList
  | invocation => "container.invokePartial(".toList

/-- A way in which generated code reaches something. -/
inductive Mention where
  | helper (name : String)
  | inclusion (name : String)
  | child (ref : SectionRef)
  | outer (depth : Nat)
  | blockParam (level index : Nat)
  /-- The call that includes some partial. -/
  | invocation
  deriving DecidableEq, Repr

namespace Mention

def text : Mention → String
  | helper name => helperText name
  | inclusion name => partialText name
  | child ref => ref.code
  | outer depth => (Root.parent depth).code
  | blockParam level index => (Root.blockParam level index).code
  | invocation => "container.invokePartial("

def kind : Mention → MentionKind
  | helper _ => .helper
  | inclusion _ => .inclusion
  | child _ => .child
  | outer _ => .outer
  | blockParam _ _ => .blockParam
  | invocation => .invocation

/-- The part of a mention that tells it from others of its kind. -/
def arguments : Mention → List Mark
  | helper name => [.literal (escaped name.toList), .char ')']
  | inclusion name => [.literal (escaped name.toList), .char ')']
  | child ref =>
      chars (toString ref.number).toList ++ chars ", data, ".toList ++
        chars (toString ref.params).toList ++ chars ", blockParams, depths)".toList
  | outer depth => chars (toString depth).toList ++ chars "]".toList
  | blockParam level index =>
      chars (toString level).toList ++ chars "][".toList ++ chars (toString index).toList ++
        chars "]".toList
  | invocation => []

/-- What a scan meets in the text of a mention. -/
def marks (m : Mention) : List Mark :=
  chars m.kind.head ++ m.arguments

/-- A mention stands somewhere in a script, outside of its literals. -/
def Occurs (m : Mention) (ms : List Mark) : Prop :=
  m.marks <:+: ms

end Mention

/-! ## Decimal numbers in code -/

/-- A mark that is no digit does not stand in a number. -/
theorem notMem_chars_toString {n : Nat} {c : Char} (hc : c.isDigit = false) :
    Mark.char c ∉ chars (toString n).toList := by
  intro hmem
  obtain ⟨d, hd, hdc⟩ := List.mem_map.mp hmem
  have hdigit := isDigit_of_mem_toString hd
  rw [Mark.char.inj hdc, hc] at hdigit
  exact absurd hdigit (by decide)

/-- Texts up to a separator agree as a whole or not at all. -/
theorem prefix_separated_iff
    {α : Type} {a : α} {xs ys us vs : List α}
    (hxs : a ∉ xs) (hys : a ∉ ys) :
    xs ++ a :: us <+: ys ++ a :: vs ↔ xs = ys ∧ us <+: vs := by
  induction xs generalizing ys with
  | nil =>
      cases ys with
      | nil => simp
      | cons y ys =>
          have hne : a ≠ y := fun h => hys (by simp [h])
          simp [hne]
  | cons x xs ih =>
      cases ys with
      | nil =>
          have hne : x ≠ a := fun h => hxs (by simp [h])
          simp [hne]
      | cons y ys =>
          have ih' := @ih ys (fun h => hxs (List.mem_cons_of_mem _ h))
            (fun h => hys (List.mem_cons_of_mem _ h))
          rw [List.cons_append, List.cons_append, List.cons_prefix_cons, ih', List.cons.injEq,
            and_assoc]

theorem chars_injective {xs ys : List Char} (h : chars xs = chars ys) : xs = ys :=
  List.map_inj_right (fun _ _ => Mark.char.inj) |>.mp h

theorem chars_prefix_iff {xs ys : List Char} : chars xs <+: chars ys ↔ xs <+: ys := by
  constructor
  · intro h
    rw [List.prefix_iff_eq_take] at h ⊢
    apply chars_injective
    rw [h]
    simp [chars, List.map_take]
  · intro h
    exact h.map _

/-- A number and the separator behind it can be read off the front of a script. -/
theorem chars_toString_prefix_iff
    {m n : Nat} {c : Char} {us vs : List Mark} (hc : c.isDigit = false) :
    chars (toString m).toList ++ .char c :: us <+: chars (toString n).toList ++ .char c :: vs ↔
      m = n ∧ us <+: vs := by
  rw [prefix_separated_iff (notMem_chars_toString hc) (notMem_chars_toString hc)]
  constructor
  · rintro ⟨heq, hrest⟩
    exact ⟨toString_nat_injective (chars_injective heq), hrest⟩
  · rintro ⟨rfl, hrest⟩
    exact ⟨rfl, hrest⟩

/-! ## Telling mentions apart -/

/-- No start of a mention is the beginning of another one. -/
theorem MentionKind.eq_of_head_prefix {k l : MentionKind} (h : k.head <+: l.head) : k = l := by
  cases k <;> cases l <;> first | rfl | exact absurd h (by decide)

namespace Mention

theorem kind_eq_of_marks_prefix
    {m n : Mention} {rest : List Mark}
    (h : m.marks <+: n.marks ++ rest) :
    m.kind = n.kind := by
  have hm : chars m.kind.head <+: n.marks ++ rest :=
    (List.prefix_append _ _).trans h
  have hn : chars n.kind.head <+: n.marks ++ rest := by
    rw [marks, List.append_assoc]
    exact List.prefix_append _ _
  rcases List.prefix_or_prefix_of_prefix hm hn with hprefix | hprefix
  · exact MentionKind.eq_of_head_prefix (chars_prefix_iff.mp hprefix)
  · exact (MentionKind.eq_of_head_prefix (chars_prefix_iff.mp hprefix)).symm

/-- A script starts with one mention at most. -/
theorem eq_of_marks_prefix
    {m n : Mention} {rest : List Mark}
    (h : m.marks <+: n.marks ++ rest) :
    m = n := by
  have hkind := kind_eq_of_marks_prefix h
  rw [marks, marks, hkind, List.append_assoc, List.prefix_append_right_inj] at h
  cases m <;> cases n <;> cases hkind
  case helper.helper.refl a b =>
    have heq : escaped a.toList = escaped b.toList := by simpa [arguments] using h
    rw [String.toList_inj.mp (escaped_injective heq)]
  case inclusion.inclusion.refl a b =>
    have heq : escaped a.toList = escaped b.toList := by simpa [arguments] using h
    rw [String.toList_inj.mp (escaped_injective heq)]
  case child.child.refl a b =>
    simp only [arguments, List.append_assoc] at h
    obtain ⟨hnumber, h⟩ := (chars_toString_prefix_iff (by decide)).mp h
    obtain ⟨hparams, -⟩ := (chars_toString_prefix_iff (by decide)).mp
      ((List.prefix_append_right_inj (chars " data, ".toList)).mp h)
    cases a
    cases b
    simp_all
  case outer.outer.refl a b =>
    simp only [arguments, List.append_assoc] at h
    obtain ⟨hdepth, -⟩ := (chars_toString_prefix_iff (by decide)).mp h
    rw [hdepth]
  case blockParam.blockParam.refl a i b j =>
    simp only [arguments, List.append_assoc] at h
    obtain ⟨hlevel, h⟩ := (chars_toString_prefix_iff (by decide)).mp h
    obtain ⟨hindex, -⟩ := (chars_toString_prefix_iff (by decide)).mp
      ((List.prefix_append_right_inj (chars "[".toList)).mp h)
    rw [hlevel, hindex]
  case invocation.invocation.refl => rfl

end Mention

/-! ## The mentions of a script -/

def MentionKind.all : List MentionKind :=
  [helper, inclusion, child, outer, blockParam, invocation]

theorem MentionKind.mem_all (k : MentionKind) : k ∈ all := by
  cases k <;> decide

/-- A script that does not continue the first letter of a mention. -/
def Fresh (rest : List Mark) : Prop :=
  rest.head? ≠ some (.char 'o') ∧ rest.head? ≠ some (.char 'e')

/-- The pairs of letters that mentions start with. -/
def startPairs : List (Char × Char) := [('l', 'o'), ('c', 'o'), ('d', 'e'), ('b', 'l')]

def startLetters : List Char := ['l', 'c', 'd', 'b']

/-- Whether a script starts with a pair of letters that mentions start with. -/
def hasStartPair : List Mark → Bool
  | m :: n :: _ => startPairs.any fun (c, d) => m == .char c && n == .char d
  | _ => false

/-- Whether a mention may start at the front of a script of two marks or more. -/
def mayStart (ms : List Mark) : Bool :=
  hasStartPair ms &&
    MentionKind.all.any fun k => chars k.head <+: ms || ms <+: chars k.head

/-- Whether no mention starts inside of a script, whatever fresh script follows. -/
def quiet : List Mark → Bool
  | [] => true
  | [m] => m != .char 'b'
  | m :: n :: ms => !mayStart (m :: n :: ms) && quiet (n :: ms)

/-- No mention starts inside of a script, whatever fresh script follows. -/
def Inert (ms : List Mark) : Prop :=
  ∀ rest, Fresh rest → ∀ s, s ≠ [] → s <:+ ms → ∀ k : MentionKind, ¬chars k.head <+: s ++ rest

/-- Every start of a mention in a script is the start of a whole one. -/
def WellMade (ms : List Mark) : Prop :=
  ∀ s, s <:+ ms → ∀ k : MentionKind, chars k.head <+: s → ∃ m : Mention, m.kind = k ∧ m.marks <+: s

/-- The mentions that start inside of a script, when another one follows. -/
structure Adds (ms : List Mark) (found : List Mention) (rest : List Mark) : Prop where
  occurs_iff : ∀ m : Mention, m.Occurs (ms ++ rest) ↔ m ∈ found ∨ m.Occurs rest
  wellMade : WellMade rest → WellMade (ms ++ rest)

/-- The mentions that start inside of a script are those of a list, whatever fresh script follows;
and the script is fresh itself. -/
def Mentions (ms : List Mark) (found : List Mention) : Prop :=
  ∀ rest, Fresh rest → Fresh (ms ++ rest) ∧ Adds ms found rest

/-- A mention starts with one of the pairs of letters. -/
theorem MentionKind.exists_head_eq (k : MentionKind) :
    ∃ c d tail, k.head = c :: d :: tail ∧ (c, d) ∈ startPairs := by
  cases k
  case helper => exact ⟨'l', 'o', _, rfl, by decide⟩
  case inclusion => exact ⟨'l', 'o', _, rfl, by decide⟩
  case child => exact ⟨'c', 'o', _, rfl, by decide⟩
  case outer => exact ⟨'d', 'e', _, rfl, by decide⟩
  case blockParam => exact ⟨'b', 'l', _, rfl, by decide⟩
  case invocation => exact ⟨'c', 'o', _, rfl, by decide⟩

/-- The first letter of a pair is fresh, and unless it is a `b` the second one is not. -/
theorem of_mem_startPairs {c d : Char} (h : (c, d) ∈ startPairs) :
    c ∈ startLetters ∧ (c ≠ 'o' ∧ c ≠ 'e') ∧ (c = 'b' ∨ d = 'o' ∨ d = 'e') := by
  have hall : ∀ p ∈ startPairs,
      p.1 ∈ startLetters ∧ (p.1 ≠ 'o' ∧ p.1 ≠ 'e') ∧ (p.1 = 'b' ∨ p.2 = 'o' ∨ p.2 = 'e') := by
    decide
  exact hall (c, d) h

theorem mayStart_of_head
    {k : MentionKind} {m n : Mark} {ms rest : List Mark}
    (h : chars k.head <+: m :: n :: ms ++ rest) :
    mayStart (m :: n :: ms) = true := by
  simp only [mayStart, Bool.and_eq_true]
  constructor
  · obtain ⟨c, d, tail, hhead, hpair⟩ := k.exists_head_eq
    rw [hhead, chars_cons, chars_cons, List.cons_append, List.cons_prefix_cons, List.cons_append,
      List.cons_prefix_cons] at h
    obtain ⟨rfl, rfl, -⟩ := h
    simp only [hasStartPair, List.any_eq_true]
    exact ⟨(c, d), hpair, by simp⟩
  · simp only [List.any_eq_true, Bool.or_eq_true, decide_eq_true_eq]
    exact ⟨k, k.mem_all, List.prefix_or_prefix_of_prefix h (List.prefix_append _ _)⟩

theorem not_head_prefix_of_quiet
    {m : Mark} {ms rest : List Mark}
    (h : quiet (m :: ms) = true) (hrest : Fresh rest) (k : MentionKind) :
    ¬chars k.head <+: m :: ms ++ rest := by
  intro hhead
  cases ms with
  | nil =>
      obtain ⟨c, d, tail, hkind, hpair⟩ := k.exists_head_eq
      obtain ⟨-, -, hletters⟩ := of_mem_startPairs hpair
      have hm : m ≠ .char 'b' := by simpa [quiet] using h
      rw [hkind, chars_cons, chars_cons, List.cons_append, List.cons_prefix_cons,
        List.nil_append] at hhead
      obtain ⟨rfl, hd⟩ := hhead
      have hd' : rest.head? = some (.char d) := by
        obtain ⟨later, rfl⟩ := hd
        rfl
      rcases hletters with rfl | rfl | rfl
      · exact hm rfl
      · exact hrest.1 hd'
      · exact hrest.2 hd'
  | cons n ms =>
      simp only [quiet, Bool.and_eq_true, Bool.not_eq_true'] at h
      exact absurd (mayStart_of_head hhead) (by simp [h.1])

theorem quiet_of_cons {m : Mark} {ms : List Mark} (h : quiet (m :: ms) = true) :
    quiet ms = true := by
  cases ms with
  | nil => rfl
  | cons n ms =>
      simp only [quiet, Bool.and_eq_true] at h
      exact h.2

theorem inert_of_quiet {ms : List Mark} (h : quiet ms = true) : Inert ms := by
  intro rest hrest s hs hsuffix k
  induction ms with
  | nil => exact absurd (List.suffix_nil.mp hsuffix) hs
  | cons m ms ih =>
      rcases List.suffix_cons_iff.mp hsuffix with rfl | hsuffix
      · exact not_head_prefix_of_quiet h hrest k
      · exact ih (quiet_of_cons h) hsuffix

theorem inert_chars {cs : List Char} (h : ∀ c ∈ cs, c ∉ startLetters) : Inert (chars cs) := by
  intro rest hrest s hs hsuffix k hprefix
  obtain ⟨c, d, tail, hhead, hpair⟩ := k.exists_head_eq
  cases s with
  | nil => exact hs rfl
  | cons m s =>
      rw [hhead, chars_cons, List.cons_append, List.cons_prefix_cons] at hprefix
      obtain ⟨rfl, -⟩ := hprefix
      obtain ⟨e, he, hec⟩ := List.mem_map.mp (hsuffix.mem (List.mem_cons_self ..))
      rw [Mark.char.inj hec] at he
      exact h c he (of_mem_startPairs hpair).1

theorem adds_nil (rest : List Mark) : Adds [] [] rest := by
  constructor
  · simp
  · exact id

theorem Adds.cons
    {x : Mark} {ms rest : List Mark} {found others : List Mention}
    (h : Adds ms found rest)
    (hoccurs : ∀ m : Mention, m.marks <+: x :: ms ++ rest ↔ m ∈ others)
    (hmade : ∀ k : MentionKind, chars k.head <+: x :: ms ++ rest →
      ∃ m : Mention, m.kind = k ∧ m.marks <+: x :: ms ++ rest) :
    Adds (x :: ms) (others ++ found) rest := by
  constructor
  · intro m
    rw [List.cons_append, Mention.Occurs, List.infix_cons_iff, List.mem_append, or_assoc]
    exact or_congr (hoccurs m) (h.occurs_iff m)
  · intro hrest s hs k hk
    rcases List.suffix_cons_iff.mp hs with rfl | hs
    · exact hmade k hk
    · exact h.wellMade hrest s hs k hk

theorem Adds.append
    {ms ns rest : List Mark} {found others : List Mention}
    (hms : Adds ms found (ns ++ rest)) (hns : Adds ns others rest) :
    Adds (ms ++ ns) (found ++ others) rest := by
  constructor
  · intro m
    rw [List.append_assoc, hms.occurs_iff m, hns.occurs_iff m, List.mem_append, or_assoc]
  · intro hrest
    rw [List.append_assoc]
    exact hms.wellMade (hns.wellMade hrest)

/-- An inert script adds nothing. -/
theorem adds_of_inert {ms rest : List Mark} (h : Inert ms) (hrest : Fresh rest) :
    Adds ms [] rest := by
  have hsuffix : ∀ s, s <:+ ms → Adds s [] rest := by
    intro s
    induction s with
    | nil => exact fun _ => adds_nil rest
    | cons x s ih =>
        intro hs
        have hnone : ∀ k : MentionKind, ¬chars k.head <+: x :: s ++ rest :=
          h rest hrest (x :: s) (by simp) hs
        have htail := ih ((List.suffix_cons x s).trans hs)
        show Adds (x :: s) ([] ++ []) rest
        refine htail.cons (fun m => ?_) fun k hk => absurd hk (hnone k)
        simp only [List.not_mem_nil, iff_false]
        exact fun hm => hnone m.kind ((List.prefix_append _ _).trans hm)
  exact hsuffix ms List.suffix_rfl

theorem mentions_nil : Mentions [] [] := by
  intro rest hrest
  exact ⟨hrest, adds_nil rest⟩

theorem Mentions.append
    {ms ns : List Mark} {found others : List Mention}
    (hms : Mentions ms found) (hns : Mentions ns others) :
    Mentions (ms ++ ns) (found ++ others) := by
  intro rest hrest
  obtain ⟨hfresh, hothers⟩ := hns rest hrest
  obtain ⟨hfresh', hfound⟩ := hms _ hfresh
  rw [List.append_assoc]
  exact ⟨hfresh', hfound.append hothers⟩

/-- Only which mentions there are matters. -/
theorem Mentions.congr
    {ms : List Mark} {found others : List Mention}
    (h : Mentions ms found) (hsame : ∀ m, m ∈ found ↔ m ∈ others) :
    Mentions ms others := by
  intro rest hrest
  obtain ⟨hfresh, hadds⟩ := h rest hrest
  refine ⟨hfresh, ?_, hadds.wellMade⟩
  intro m
  rw [hadds.occurs_iff m, hsame m]

/-- A script of the compiler's own code mentions nothing. -/
theorem mentions_of_quiet
    {m : Mark} {ms : List Mark}
    (hfresh : m ≠ .char 'o' ∧ m ≠ .char 'e') (h : quiet (m :: ms) = true) :
    Mentions (m :: ms) [] := by
  intro rest hrest
  exact ⟨by simpa [Fresh] using hfresh, adds_of_inert (inert_of_quiet h) hrest⟩

theorem mentions_literal (raw : List Char) : Mentions [.literal raw] [] :=
  mentions_of_quiet (by simp) (by simp [quiet])

theorem mentions_chars
    {cs : List Char}
    (hfresh : ∀ c ∈ cs.head?, c ≠ 'o' ∧ c ≠ 'e') (h : ∀ c ∈ cs, c ∉ startLetters) :
    Mentions (chars cs) [] := by
  intro rest hrest
  refine ⟨?_, adds_of_inert (inert_chars h) hrest⟩
  cases cs with
  | nil => simpa using hrest
  | cons c cs => simpa [Fresh] using hfresh c (by simp)

theorem mentions_toString (n : Nat) : Mentions (chars (toString n).toList) [] := by
  have hletter : ∀ c ∈ (toString n).toList, c ∉ 'o' :: 'e' :: startLetters := by
    intro c hc hmem
    have hdigit := isDigit_of_mem_toString hc
    have hnone : ('o' :: 'e' :: startLetters).all (fun d => !d.isDigit) = true := by decide
    have hnotDigit := List.all_eq_true.mp hnone c hmem
    simp [hdigit] at hnotDigit
  apply mentions_chars
  · intro c hc
    have hmem := hletter c (List.mem_of_mem_head? hc)
    simp only [List.mem_cons, not_or] at hmem
    exact ⟨hmem.1, hmem.2.1⟩
  · intro c hc hmem
    exact hletter c hc (List.mem_cons_of_mem _ (List.mem_cons_of_mem _ hmem))

/-- Past its first letter the start of a mention is quiet. -/
theorem MentionKind.quiet_tail_head (k : MentionKind) : quiet (chars k.head.tail) = true := by
  cases k <;> decide

theorem mentions_separator
    {c : Char} {cs : List Char}
    (hfresh : (c ≠ 'o' ∧ c ≠ 'e') ∧ quiet (chars (c :: cs)) = true) :
    Mentions (chars (c :: cs)) [] :=
  mentions_of_quiet (by simpa using hfresh.1) hfresh.2

namespace Mention

/-- The arguments of a mention hold no other one. -/
theorem mentions_arguments (m : Mention) : Mentions m.arguments [] := by
  have hparen : Mentions (chars [')']) [] := mentions_separator (by decide)
  have hbracket : Mentions (chars "]".toList) [] := mentions_separator (by decide)
  cases m with
  | helper name => exact (mentions_literal _).append hparen
  | inclusion name => exact (mentions_literal _).append hparen
  | child ref =>
      have hdata : Mentions (chars ", data, ".toList) [] := mentions_separator (by decide)
      have hend : Mentions (chars ", blockParams, depths)".toList) [] :=
        mentions_separator (by decide)
      exact (((mentions_toString _).append hdata).append (mentions_toString _)).append hend
  | outer depth =>
      exact (mentions_toString depth).append hbracket
  | blockParam level index =>
      have hbetween : Mentions (chars "][".toList) [] := mentions_separator (by decide)
      exact (((mentions_toString _).append hbetween).append (mentions_toString _)).append hbracket
  | invocation => exact mentions_nil

/-- The text of a mention holds this mention and no other one. -/
theorem mentions_marks (m : Mention) : Mentions m.marks [m] := by
  intro rest hrest
  obtain ⟨c, d, tail, hhead, hpair⟩ := m.kind.exists_head_eq
  have hmarks : m.marks = .char c :: (chars m.kind.head.tail ++ m.arguments) := by
    rw [marks, hhead]
    rfl
  have hinside : Adds (chars m.kind.head.tail ++ m.arguments) [] rest := by
    obtain ⟨hfresh, hadds⟩ := m.mentions_arguments rest hrest
    exact (adds_of_inert (inert_of_quiet m.kind.quiet_tail_head) hfresh).append hadds
  have hfirst : ∀ n : Mention, n.marks <+: m.marks ++ rest ↔ n ∈ [m] := by
    intro n
    rw [List.mem_singleton]
    constructor
    · exact eq_of_marks_prefix
    · rintro rfl
      exact List.prefix_append _ _
  have hmade : ∀ k : MentionKind, chars k.head <+: m.marks ++ rest →
      ∃ n : Mention, n.kind = k ∧ n.marks <+: m.marks ++ rest := by
    intro k hk
    refine ⟨m, ?_, List.prefix_append _ _⟩
    have hown : chars m.kind.head <+: m.marks ++ rest := by
      rw [marks, List.append_assoc]
      exact List.prefix_append _ _
    rcases List.prefix_or_prefix_of_prefix hown hk with hprefix | hprefix
    · exact MentionKind.eq_of_head_prefix (chars_prefix_iff.mp hprefix)
    · exact (MentionKind.eq_of_head_prefix (chars_prefix_iff.mp hprefix)).symm
  rw [hmarks] at hfirst hmade ⊢
  obtain ⟨-, hfresh, -⟩ := of_mem_startPairs hpair
  exact ⟨by simpa [Fresh] using hfresh, hinside.cons hfirst hmade⟩

end Mention
end Spec
end TemplateModules
