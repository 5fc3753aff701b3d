import Mathlib.Tactic.Common
import TemplateModules.Template.Lexeme.Read
import TemplateModules.Template.Word

/-!
# Written paths

A path is written as the steps that it goes up and then its segments, with points or slashes between
them.  A segment stands by itself or in brackets, and in brackets it may be any text without a
closing bracket.  Reading a written path gives its steps and the texts of its segments back.  Only
where one of the words for a context stands in brackets the path is refused, since reading no longer
knows of the brackets when it looks for these words.
-/

namespace TemplateModules
namespace Template

open Text

/-! ## Writing -/

/-- A text that can be a segment without brackets. -/
structure IsPlainSegment (text : List Char) : Prop where
  ne_nil : text ≠ []
  point_notMem : '.' ∉ text
  slash_notMem : '/' ∉ text
  bracket_notMem : '[' ∉ text
  ne_this : text ≠ thisWord
  /-- The mark of private data does not stand in front. -/
  head?_ne : text.head? ≠ some '@'

/-- A segment of a path, as it is written. -/
inductive PathSegment where
  | plain (text : List Char) (htext : IsPlainSegment text)
  | bracketed (text : List Char) (htext : ']' ∉ text)

namespace PathSegment

/-- The text that a segment denotes. -/
def contents : PathSegment → List Char
  | plain text _ => text
  | bracketed text _ => text

def written : PathSegment → List Char
  | plain text _ => text
  | bracketed text _ => '[' :: (text ++ [']'])

/-- Whether one of the words for a context stands in brackets. -/
def quotesReserved : PathSegment → Bool
  | plain _ _ => false
  | bracketed text _ => isReserved text

/-- Whether a segment without brackets can stand in a tag: nothing in it ends a word. -/
def IsWordly : PathSegment → Prop
  | plain text _ => ∀ c ∈ text, Lexeme.endsWord c = false
  | bracketed _ _ => True

end PathSegment

/-- What stands between two segments. -/
inductive PathSeparator where
  | point
  | slash
  deriving DecidableEq

namespace PathSeparator

def char : PathSeparator → Char
  | point => '.'
  | slash => '/'

end PathSeparator

/-- The segments behind the first one, each with its separator. -/
def writtenTail (rest : List (PathSeparator × PathSegment)) : List Char :=
  rest.flatMap fun (separator, segment) => separator.char :: segment.written

/-- The steps that a path goes up. -/
def writtenSteps (depth : Nat) : List Char :=
  (List.replicate depth ['.', '.', '/']).flatten

def writtenPath
    (depth : Nat) (first : PathSegment) (rest : List (PathSeparator × PathSegment)) : List Char :=
  writtenSteps depth ++ (first.written ++ writtenTail rest)

/-! ## Segments -/

theorem writtenTail_cons
    (separator : PathSeparator) (segment : PathSegment)
    (rest : List (PathSeparator × PathSegment)) :
    writtenTail ((separator, segment) :: rest) =
      separator.char :: (segment.written ++ writtenTail rest) := rfl

/-- At a separator or at the end a segment is complete. -/
theorem segments_writtenTail
    {segment : List Char} {bracketed : Bool} (h : (segment.isEmpty && !bracketed) = false)
    (rest : List (PathSeparator × PathSegment)) :
    segments segment bracketed false (writtenTail rest) =
      match rest with
      | [] => some [segment.reverse]
      | (_, next) :: rest =>
          (segments [] false false (next.written ++ writtenTail rest)).map
            (segment.reverse :: ·) := by
  cases rest with
  | nil => rw [writtenTail, List.flatMap_nil, segments, h, if_neg Bool.false_ne_true]
  | cons head rest =>
      obtain ⟨separator, next⟩ := head
      rw [writtenTail_cons, segments, h]
      cases separator <;> simp [PathSeparator.char]

/-- Without brackets the characters of a segment are kept up to its end. -/
theorem segments_plain
    {text : List Char} (hpoint : '.' ∉ text) (hslash : '/' ∉ text) (hbracket : '[' ∉ text)
    (segment tail : List Char) :
    segments segment false false (text ++ tail) =
      segments (text.reverse ++ segment) false false tail := by
  induction text generalizing segment with
  | nil => rfl
  | cons c text ih =>
      obtain ⟨hpoint', hpoint⟩ := List.ne_and_not_mem_of_not_mem_cons hpoint
      obtain ⟨hslash', hslash⟩ := List.ne_and_not_mem_of_not_mem_cons hslash
      obtain ⟨hbracket', hbracket⟩ := List.ne_and_not_mem_of_not_mem_cons hbracket
      rw [List.cons_append, segments, if_neg fun h => hbracket' h.1.symm,
        if_neg (by simp [Ne.symm hpoint', Ne.symm hslash']), ih hpoint hslash hbracket]
      simp

/-- In brackets all characters are kept up to the closing one. -/
theorem segments_bracketed
    {text : List Char} (htext : ']' ∉ text) (segment tail : List Char) :
    segments segment true true (text ++ ']' :: tail) =
      segments (text.reverse ++ segment) true false tail := by
  induction text generalizing segment with
  | nil => rw [List.nil_append, segments, if_pos rfl, List.reverse_nil, List.nil_append]
  | cons c text ih =>
      obtain ⟨hc, htext⟩ := List.ne_and_not_mem_of_not_mem_cons htext
      rw [List.cons_append, segments, if_neg (Ne.symm hc), ih htext]
      simp

/-- One segment is read back, whatever segments follow. -/
theorem segments_written_append
    (first : PathSegment) (rest : List (PathSeparator × PathSegment)) :
    segments [] false false (first.written ++ writtenTail rest) =
      match rest with
      | [] => some [first.contents]
      | (_, next) :: rest =>
          (segments [] false false (next.written ++ writtenTail rest)).map
            (first.contents :: ·) := by
  cases first with
  | plain text htext =>
      rw [PathSegment.written,
        segments_plain htext.point_notMem htext.slash_notMem htext.bracket_notMem,
        List.append_nil, segments_writtenTail (by simp [htext.ne_nil]), List.reverse_reverse]
      rfl
  | bracketed text htext =>
      rw [PathSegment.written, List.cons_append, List.append_assoc, List.singleton_append,
        segments, if_pos ⟨rfl, rfl⟩, segments_bracketed htext, List.append_nil,
        segments_writtenTail (by simp), List.reverse_reverse]
      rfl

theorem segments_written
    (first : PathSegment) (rest : List (PathSeparator × PathSegment)) :
    segments [] false false (first.written ++ writtenTail rest) =
      some ((first :: rest.map Prod.snd).map PathSegment.contents) := by
  induction rest generalizing first with
  | nil => exact segments_written_append first []
  | cons head rest ih =>
      rw [segments_written_append]
      simp only [ih, Option.map_some]
      rfl

/-! ## Steps and words for contexts -/

/-- A character that stands in front of a written segment. -/
theorem exists_written_eq_cons (segment : PathSegment) :
    ∃ c cs, segment.written = c :: cs ∧ c ≠ '.' ∧ c ≠ '@' := by
  cases segment with
  | bracketed text _ => exact ⟨'[', text ++ [']'], rfl, by decide, by decide⟩
  | plain text htext =>
      obtain ⟨c, cs, rfl⟩ := List.exists_cons_of_ne_nil htext.ne_nil
      refine ⟨c, cs, rfl, ?_, ?_⟩
      · rintro rfl
        exact htext.point_notMem List.mem_cons_self
      · rintro rfl
        exact htext.head?_ne rfl

theorem parents_of_ne {c : Char} (hc : c ≠ '.') (cs : List Char) :
    parents (c :: cs) = (0, c :: cs) := by
  unfold parents
  split
  · next h => exact absurd (List.cons.inj h).1 hc
  · next h => exact absurd (List.cons.inj h).1 hc
  · rfl

/-- The steps of a path are counted. -/
theorem parents_writtenSteps {c : Char} (hc : c ≠ '.') (depth : Nat) (cs : List Char) :
    parents (writtenSteps depth ++ c :: cs) = (depth, c :: cs) := by
  induction depth with
  | zero => exact parents_of_ne hc cs
  | succ depth ih =>
      have hsteps : writtenSteps (depth + 1) = '.' :: '.' :: '/' :: writtenSteps depth := rfl
      rw [hsteps, List.cons_append, List.cons_append, List.cons_append, parents, ih]

/-- Whether a character stands between segments. -/
def isSeparator (c : Char) : Bool :=
  c == '.' || c == '/'

theorem takeWhile_of_head?
    {text tail : List Char} (htext : ∀ c ∈ text, isSeparator c = false)
    (htail : ∀ c ∈ tail.head?, isSeparator c = true) :
    (text ++ tail).takeWhile (fun c => !isSeparator c) = text := by
  rw [List.takeWhile_append_of_pos (by simpa using htext)]
  cases tail with
  | nil => exact List.append_nil text
  | cons c tail =>
      rw [List.takeWhile_cons_of_neg (by simpa using htail c rfl), List.append_nil]

theorem isSeparator_of_writtenTail (rest : List (PathSeparator × PathSegment)) :
    ∀ c ∈ (writtenTail rest).head?, isSeparator c = true := by
  cases rest with
  | nil => exact fun c hc => nomatch hc
  | cons head rest =>
      obtain ⟨separator, next⟩ := head
      rw [writtenTail_cons]
      rintro c ⟨⟩
      cases separator <;> rfl

/-- The keyword of the current context does not stand in front of a written path. -/
theorem written_ne_this
    (first : PathSegment) (rest : List (PathSeparator × PathSegment)) {more : List Char}
    (hmore : ∀ c ∈ more.head?, isSeparator c = true) :
    first.written ++ writtenTail rest ≠ thisWord ++ more := by
  intro heq
  cases first with
  | bracketed text htext => exact absurd (List.cons.inj heq).1 (by decide)
  | plain text htext =>
      have hfree : ∀ c ∈ text, isSeparator c = false := by
        intro c hc
        have hpoint : c ≠ '.' := fun h => htext.point_notMem (h ▸ hc)
        have hslash : c ≠ '/' := fun h => htext.slash_notMem (h ▸ hc)
        simp [isSeparator, hpoint, hslash]
      have htext' : (text ++ writtenTail rest).takeWhile (fun c => !isSeparator c) = text :=
        takeWhile_of_head? hfree (isSeparator_of_writtenTail rest)
      have hthis : (thisWord ++ more).takeWhile (fun c => !isSeparator c) = thisWord :=
        takeWhile_of_head? (by simp [thisWord, isSeparator]) hmore
      have heq' : text ++ writtenTail rest = thisWord ++ more := heq
      rw [heq', hthis] at htext'
      exact htext.ne_this htext'.symm

theorem current_written
    (first : PathSegment) (rest : List (PathSeparator × PathSegment)) :
    current (first.written ++ writtenTail rest) =
      (false, first.written ++ writtenTail rest) := by
  obtain ⟨c, cs, hfirst, hc, -⟩ := exists_written_eq_cons first
  have hword : first.written ++ writtenTail rest ≠ thisWord := by
    have hne := @written_ne_this first rest [] (by simp)
    rwa [List.append_nil] at hne
  have hnone {separator : Char} (hseparator : isSeparator separator = true) :
      after? (thisWord ++ [separator]) (first.written ++ writtenTail rest) = none := by
    cases hafter : after? (thisWord ++ [separator]) (first.written ++ writtenTail rest) with
    | none => rfl
    | some more =>
        have heq := eq_append_of_after? hafter
        rw [List.append_assoc, List.singleton_append] at heq
        exact absurd heq (written_ne_this first rest (by rintro _ ⟨⟩; exact hseparator))
  have hpoint : first.written ++ writtenTail rest ≠ ['.'] := by
    rw [hfirst]
    exact fun h => hc (List.cons.inj h).1
  have hslash : after? ['.', '/'] (first.written ++ writtenTail rest) = none := by
    rw [hfirst, List.cons_append, after?, if_neg (Ne.symm hc)]
  rw [current, if_neg (not_or.mpr ⟨hword, hpoint⟩), hnone (by rfl), hnone (by rfl), hslash]

/-! ## Paths -/

theorem isReserved_contents (segment : PathSegment) :
    isReserved segment.contents = segment.quotesReserved := by
  cases segment with
  | bracketed text htext => rfl
  | plain text htext =>
      have hpoint : text ≠ ['.'] := by
        rintro rfl
        exact htext.point_notMem List.mem_cons_self
      have hpoints : text ≠ ['.', '.'] := by
        rintro rfl
        exact htext.point_notMem List.mem_cons_self
      simp [PathSegment.contents, PathSegment.quotesReserved, isReserved, htext.ne_this, hpoint,
        hpoints]

/-- A path that is neither private data nor a word for a context is made of its steps and
segments. -/
theorem ofWord?_of_segments
    {cs rest : List Char} {depth : Nat} {parts : List (List Char)} (hat : cs.head? ≠ some '@')
    (hsteps : parents cs = (depth, rest)) (hcurrent : current rest = (false, rest))
    (hrest : rest.isEmpty = false) (hparts : segments [] false false rest = some parts) :
    Path.ofWord? (String.ofList cs) =
      if parts.any isReserved then none
      else
        some { data := false, depth, anchored := false, parts := parts.map String.ofList,
               text := String.ofList cs } := by
  rw [Path.ofWord?, String.toList_ofList]
  split
  next data later hmatch =>
    split at hmatch
    · exact absurd rfl hat
    · cases hmatch
      simp only [hsteps, hcurrent, hrest, Bool.false_eq_true, if_false, hparts, Bool.false_and,
        Bool.or_false]

/-! ## Words -/

section Words

variable {text : List Char}

theorem readWord_plain
    (hends : ∀ c ∈ text, Lexeme.endsWord c = false) (hbracket : '[' ∉ text) (tail : List Char) :
    Lexeme.readWord false (text ++ tail) =
      (Lexeme.readWord false tail).map fun (chars, rest) => (text ++ chars, rest) := by
  induction text with
  | nil => simp
  | cons c text ih =>
      obtain ⟨hc, hbracket⟩ := List.ne_and_not_mem_of_not_mem_cons hbracket
      obtain ⟨hend, hends⟩ := List.forall_mem_cons.mp hends
      have hopen : (c == '[') = false := beq_false_of_ne (Ne.symm hc)
      rw [List.cons_append, Lexeme.readWord, hend]
      simp only [Bool.not_false, Bool.and_false, Bool.false_eq_true, if_false, hopen,
        ih hends hbracket, Option.map_map]
      rfl

theorem readWord_bracketed (htext : ']' ∉ text) (tail : List Char) :
    Lexeme.readWord true (text ++ ']' :: tail) =
      (Lexeme.readWord false tail).map fun (chars, rest) => (text ++ ']' :: chars, rest) := by
  induction text with
  | nil =>
      rw [List.nil_append, Lexeme.readWord]
      rfl
  | cons c text ih =>
      obtain ⟨hc, htext⟩ := List.ne_and_not_mem_of_not_mem_cons htext
      have hopen : (c != ']') = true := bne_iff_ne.mpr (Ne.symm hc)
      rw [List.cons_append, Lexeme.readWord]
      simp only [Bool.not_true, Bool.false_and, Bool.false_eq_true, if_false, if_true, hopen,
        ih htext, Option.map_map]
      rfl

/-- A word goes on behind a segment. -/
theorem readWord_written {segment : PathSegment} (h : segment.IsWordly) (tail : List Char) :
    Lexeme.readWord false (segment.written ++ tail) =
      (Lexeme.readWord false tail).map fun (chars, rest) => (segment.written ++ chars, rest) := by
  cases segment with
  | plain text htext => exact readWord_plain h htext.bracket_notMem tail
  | bracketed text htext =>
      have hopen : Lexeme.readWord false ('[' :: (text ++ ']' :: tail)) =
          (Lexeme.readWord true (text ++ ']' :: tail)).map
            fun (chars, rest) => ('[' :: chars, rest) := by
        rw [Lexeme.readWord]
        rfl
      rw [PathSegment.written, List.cons_append, List.append_assoc, List.singleton_append, hopen,
        readWord_bracketed htext, Option.map_map]
      simp [Function.comp_def]

theorem readWord_writtenTail
    {rest : List (PathSeparator × PathSegment)} (h : ∀ s ∈ rest.map Prod.snd, s.IsWordly) :
    Lexeme.readWord false (writtenTail rest) = some (writtenTail rest, []) := by
  induction rest with
  | nil => rfl
  | cons head rest ih =>
      obtain ⟨separator, next⟩ := head
      obtain ⟨hnext, hrest⟩ := List.forall_mem_cons.mp h
      have hends : Lexeme.endsWord separator.char = false := by cases separator <;> decide
      have hbracket : '[' ∉ [separator.char] := by cases separator <;> simp [PathSeparator.char]
      have hseparator := readWord_plain (List.forall_mem_singleton.mpr hends) hbracket
        (next.written ++ writtenTail rest)
      rw [writtenTail_cons, ← List.singleton_append, hseparator, readWord_written hnext, ih hrest]
      rfl

/-- A text that is one word is the only lexeme of an expression. -/
theorem readAll_of_readWord
    {cs : List Char} (hcs : cs ≠ []) (h : Lexeme.readWord false cs = some (cs, [])) :
    Lexeme.readAll cs = .ok [.word (String.ofList cs)] := by
  obtain ⟨c, cs, rfl⟩ := List.exists_cons_of_ne_nil hcs
  rw [Lexeme.readWord] at h
  split at h
  · cases h
  · next hend =>
      simp only [Bool.not_false, Bool.true_and, Lexeme.endsWord, Bool.or_eq_true, not_or,
        Bool.not_eq_true, Option.isSome_eq_false_iff, Option.isNone_iff_eq_none] at hend
      obtain ⟨⟨hblank, hmark⟩, hquote⟩ := hend
      simp only [Bool.false_eq_true, if_false, Option.map_eq_some_iff, Prod.mk.injEq,
        Prod.exists, List.cons.injEq, true_and] at h
      obtain ⟨chars, rest, hword, rfl, rfl⟩ := h
      unfold Lexeme.readAll
      rw [hblank, if_neg Bool.false_ne_true, hmark]
      simp only [hquote, Bool.false_eq_true, if_false]
      split
      · next hnone => rw [hword] at hnone; cases hnone
      · next found rest hfound =>
          rw [hword] at hfound
          cases hfound
          unfold Lexeme.readAll
          rfl

end Words

/-- A written path is one word of a tag, unless something in a segment without brackets ends
words. -/
theorem ofBody_writtenPath
    {depth : Nat} {first : PathSegment} {rest : List (PathSeparator × PathSegment)}
    (h : ∀ s ∈ first :: rest.map Prod.snd, s.IsWordly) :
    Lexeme.ofBody (String.ofList (writtenPath depth first rest)) =
      .ok [.word (String.ofList (writtenPath depth first rest))] := by
  obtain ⟨hfirst, hrest⟩ := List.forall_mem_cons.mp h
  have hsteps : ∀ c ∈ writtenSteps depth, c = '.' ∨ c = '/' := by
    intro c hc
    obtain ⟨step, hstep, hc⟩ := List.mem_flatten.mp hc
    rw [List.eq_of_mem_replicate hstep] at hc
    simpa using hc
  have hends : ∀ c ∈ writtenSteps depth, Lexeme.endsWord c = false := by
    intro c hc
    rcases hsteps c hc with rfl | rfl <;> decide
  have hbracket : '[' ∉ writtenSteps depth := fun hmem => by simpa using hsteps _ hmem
  rw [Lexeme.ofBody, String.toList_ofList]
  apply readAll_of_readWord
  · obtain ⟨c, cs, hwritten, -⟩ := exists_written_eq_cons first
    simp [writtenPath, hwritten]
  · rw [writtenPath, readWord_plain hends hbracket, readWord_written hfirst,
      readWord_writtenTail hrest]
    rfl

/-- A written path is read as its steps and the texts of its segments, unless one of the words for a
context stands in brackets: then it is refused.  It is one word of a tag, whatever stands in
brackets. -/
theorem ofWord?_writtenPath
    (depth : Nat) (first : PathSegment) (rest : List (PathSeparator × PathSegment)) :
    (Path.ofWord? (String.ofList (writtenPath depth first rest)) =
      if (first :: rest.map Prod.snd).any PathSegment.quotesReserved then none
      else
        some {
          data := false
          depth
          anchored := false
          parts := (first :: rest.map Prod.snd).map fun segment => String.ofList segment.contents
          text := String.ofList (writtenPath depth first rest) }) ∧
    ((∀ s ∈ first :: rest.map Prod.snd, s.IsWordly) →
      Lexeme.ofBody (String.ofList (writtenPath depth first rest)) =
        .ok [.word (String.ofList (writtenPath depth first rest))]) := by
  refine ⟨?_, ofBody_writtenPath⟩
  obtain ⟨c, cs, hfirst, hpoint, hat⟩ := exists_written_eq_cons first
  have hhead : (writtenPath depth first rest).head? ≠ some '@' := by
    cases depth with
    | zero =>
        rw [writtenPath, writtenSteps, hfirst]
        exact fun h => hat (Option.some.inj h)
    | succ depth => exact fun h => absurd (Option.some.inj h) (by decide)
  have hparents : parents (writtenPath depth first rest) =
      (depth, first.written ++ writtenTail rest) := by
    rw [writtenPath, hfirst, List.cons_append]
    exact parents_writtenSteps hpoint depth _
  have hne : (first.written ++ writtenTail rest).isEmpty = false := by
    rw [hfirst]
    rfl
  have hreserved : ((first :: rest.map Prod.snd).map PathSegment.contents).any isReserved =
      (first :: rest.map Prod.snd).any PathSegment.quotesReserved := by
    rw [List.any_map]
    exact congrArg _ (funext isReserved_contents)
  rw [ofWord?_of_segments hhead hparents (current_written first rest) hne
    (segments_written first rest), hreserved, List.map_map]
  rfl

/-- A segment with a blank, in brackets. -/
def spacedSegment : PathSegment :=
  .bracketed ['a', ' ', 'b'] (by decide)

/-- A segment by itself, one with marks in brackets and one that is empty. -/
def markedSegments : List (PathSeparator × PathSegment) :=
  [(.point, .plain ['c'] ⟨by decide, by decide, by decide, by decide, by decide, by decide⟩),
    (.slash, .bracketed ['=', '[', '.'] (by decide)), (.point, .bracketed [] (by decide))]

theorem spacedSegment_reads :
    String.ofList (writtenPath 1 spacedSegment markedSegments) = "../[a b].c/[=[.].[]" ∧
      Path.ofWord? "../[a b].c/[=[.].[]" =
        some { data := false, depth := 1, anchored := false, parts := ["a b", "c", "=[.", ""],
               text := "../[a b].c/[=[.].[]" } ∧
      Lexeme.ofBody "../[a b].c/[=[.].[]" = .ok [.word "../[a b].c/[=[.].[]"] := by
  have hwritten : String.ofList (writtenPath 1 spacedSegment markedSegments) =
      "../[a b].c/[=[.].[]" := by decide +kernel
  have hwordly : ∀ s ∈ spacedSegment :: markedSegments.map Prod.snd, s.IsWordly := by
    simp [spacedSegment, markedSegments, PathSegment.IsWordly]
    decide
  obtain ⟨hpath, hword⟩ := ofWord?_writtenPath 1 spacedSegment markedSegments
  have hlexeme := hword hwordly
  rw [hwritten] at hpath hlexeme
  exact ⟨hwritten, hpath, hlexeme⟩

/-- A path of one segment, the keyword of the current context in brackets, is refused. -/
theorem quotedThis_refused :
    String.ofList (writtenPath 0 (.bracketed thisWord (by decide)) []) = "[this]" ∧
      Path.ofWord? "[this]" = none := by
  decide +kernel

end Template
end TemplateModules
