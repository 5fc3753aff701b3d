import Mathlib.Data.List.Basic
import Mathlib.Data.List.TakeWhile
import Mathlib.Tactic.Common
import TemplateModules.Proofs.Except
import TemplateModules.Template.Lexeme.Read

/-!
# Blanks between lexemes

Blanks only separate lexemes.  Where a text that can be read ends, other lexemes may follow behind
any blanks, and blanks at the ends of a text make no difference at all.
-/

namespace TemplateModules

namespace Text

/-- Nothing but blank characters. -/
def AllBlank (cs : List Char) : Prop :=
  ∀ c ∈ cs, isBlank c = true

theorem AllBlank.head? {cs : List Char} (h : AllBlank cs) : ∀ c ∈ cs.head?, isBlank c = true :=
  fun c hc => h c (List.mem_of_mem_head? hc)

/-- The part that trimming drops at the back is blank. -/
theorem exists_trimEnd (cs : List Char) : ∃ tail, cs = trimEnd cs ++ tail ∧ AllBlank tail := by
  obtain ⟨lead, hcs, hlead⟩ := exists_trimStart cs.reverse
  refine ⟨lead.reverse, ?_, fun c hc => hlead c (List.mem_reverse.mp hc)⟩
  have hreverse := congrArg List.reverse hcs
  rwa [List.reverse_reverse, List.reverse_append] at hreverse

theorem trimStart_append_of_blank {lead : List Char} (h : AllBlank lead) (cs : List Char) :
    trimStart (lead ++ cs) = trimStart cs :=
  List.dropWhile_append_of_pos h

theorem trimStart_eq_nil_iff {cs : List Char} : trimStart cs = [] ↔ AllBlank cs :=
  List.dropWhile_eq_nil_iff

theorem trimStart_append_of_not_blank {lead : List Char} (h : ¬ AllBlank lead) (cs : List Char) :
    trimStart (lead ++ cs) = trimStart lead ++ cs := by
  rw [trimStart, List.dropWhile_append, if_neg]
  · rfl
  · rwa [List.isEmpty_iff, ← trimStart, trimStart_eq_nil_iff]

theorem allBlank_reverse {cs : List Char} : AllBlank cs.reverse ↔ AllBlank cs := by
  simp [AllBlank]

theorem trimEnd_append_of_blank {tail : List Char} (h : AllBlank tail) (cs : List Char) :
    trimEnd (cs ++ tail) = trimEnd cs := by
  have hdrop := trimStart_append_of_blank (allBlank_reverse.mpr h) cs.reverse
  rw [← List.reverse_append] at hdrop
  exact congrArg List.reverse hdrop

theorem trimEnd_append_of_not_blank {tail : List Char} (h : ¬ AllBlank tail) (cs : List Char) :
    trimEnd (cs ++ tail) = cs ++ trimEnd tail := by
  have hdrop := trimStart_append_of_not_blank (mt allBlank_reverse.mp h) cs.reverse
  rw [← List.reverse_append] at hdrop
  rw [trimEnd, ← trimStart, hdrop, List.reverse_append, List.reverse_reverse]
  rfl

section

variable {left blanks right : List Char} (hblanks : AllBlank blanks)
include hblanks

theorem trim_of_blank_left (hleft : AllBlank left) :
    trim (left ++ (blanks ++ right)) = trim right := by
  rw [trim, trimStart_append_of_blank hleft, trimStart_append_of_blank hblanks, trim]

theorem trim_of_blank_right (hright : AllBlank right) :
    trim (left ++ (blanks ++ right)) = trim left := by
  by_cases hleft : AllBlank left
  · have hnil {cs : List Char} (h : AllBlank cs) : trim cs = [] := by
      rw [trim, trimStart_eq_nil_iff.mpr h, trimEnd_nil]
    rw [trim_of_blank_left hblanks hleft, hnil hleft, hnil hright]
  · have htail : AllBlank (blanks ++ right) := List.forall_mem_append.mpr ⟨hblanks, hright⟩
    rw [trim, trimStart_append_of_not_blank hleft, trimEnd_append_of_blank htail, trim]

omit hblanks in
/-- Blanks in the middle of a text are kept. -/
theorem trim_between (hleft : ¬ AllBlank left) (hright : ¬ AllBlank right) :
    trim (left ++ (blanks ++ right)) = trimStart left ++ (blanks ++ trimEnd right) := by
  rw [trim, trimStart_append_of_not_blank hleft, ← List.append_assoc,
    trimEnd_append_of_not_blank hright, List.append_assoc]

end

end Text

namespace Template
namespace Lexeme

open Text

/-! ## Texts and words -/

theorem isBlank_of_isQuote {quote : Char} (h : isQuote quote = true) : isBlank quote = false := by
  simp only [isQuote, Bool.or_eq_true, beq_iff_eq] at h
  rcases h with rfl | rfl <;> decide

/-- A quoted text ends where it does, whatever follows. -/
theorem readQuoted_append
    {quote : Char} {escaped : Bool} {cs text rest : List Char} (hquote : quote ≠ '\\')
    (h : readQuoted quote escaped cs = some (text, rest)) (more : List Char) :
    readQuoted quote escaped (cs ++ more) = some (text, rest ++ more) := by
  induction cs generalizing escaped text with
  | nil => simp [readQuoted] at h
  | cons c cs ih =>
      rw [List.cons_append, readQuoted]
      rw [readQuoted] at h
      split at h
      · next hescaped =>
          obtain ⟨⟨found, later⟩, hfound, hpair⟩ := Option.map_eq_some_iff.mp h
          obtain ⟨rfl, rfl⟩ := Prod.mk.inj hpair
          rw [if_pos hescaped, ih hfound]
          rfl
      · next hescaped =>
          rw [if_neg hescaped]
          split at h
          · next hslash =>
              have hhead : (cs ++ more).head? = some quote := by
                rw [List.head?_append, hslash.2]
                rfl
              rw [if_pos ⟨hslash.1, hhead⟩]
              exact ih h
          · next hslash =>
              split at h
              · next hend =>
                  cases h
                  rw [if_neg fun hboth => hquote (hend.symm.trans hboth.1), if_pos hend]
              · next hend =>
                  obtain ⟨⟨found, later⟩, hfound, hpair⟩ := Option.map_eq_some_iff.mp h
                  obtain ⟨rfl, rfl⟩ := Prod.mk.inj hpair
                  -- The text is not at its end here, so that the next character is the same.
                  have hhead : (cs ++ more).head? = cs.head? := by
                    cases cs with
                    | nil => simp [readQuoted] at hfound
                    | cons d ds => rfl
                  rw [hhead, if_neg hslash, if_neg hend, ih hfound]
                  rfl

/-- Blanks do not close a quoted text. -/
theorem readQuoted_blank
    {quote : Char} (hquote : isBlank quote = false) (escaped : Bool) {blanks : List Char}
    (hblanks : AllBlank blanks) :
    readQuoted quote escaped blanks = none := by
  induction blanks generalizing escaped with
  | nil => rfl
  | cons c cs ih =>
      obtain ⟨hc, hcs⟩ := List.forall_mem_cons.mp hblanks
      have hslash : c ≠ '\\' := by
        rintro rfl
        exact absurd hc (by decide)
      have hend : c ≠ quote := by
        rintro rfl
        rw [hc] at hquote
        contradiction
      rw [readQuoted]
      simp [hslash, hend, ih false hcs]

theorem readQuoted_append_blank
    {quote : Char} {escaped : Bool} {cs blanks : List Char} (hquote : isBlank quote = false)
    (h : readQuoted quote escaped cs = none) (hblanks : AllBlank blanks) :
    readQuoted quote escaped (cs ++ blanks) = none := by
  induction cs generalizing escaped with
  | nil => exact readQuoted_blank hquote escaped hblanks
  | cons c cs ih =>
      have hhead : (cs ++ blanks).head? = some quote ↔ cs.head? = some quote := by
        cases cs with
        | nil =>
            refine iff_of_false (fun hfound => ?_) (by simp)
            rw [hblanks.head? quote hfound] at hquote
            contradiction
        | cons d ds => exact Iff.rfl
      rw [List.cons_append, readQuoted]
      simp only [hhead]
      rw [readQuoted] at h
      split at h
      · next hescaped => rw [if_pos hescaped, ih (Option.map_eq_none_iff.mp h), Option.map_none]
      · next hescaped =>
          rw [if_neg hescaped]
          split at h
          · next hslash => rw [if_pos hslash, ih h]
          · next hslash =>
              rw [if_neg hslash]
              split at h
              · cases h
              · next hend => rw [if_neg hend, ih (Option.map_eq_none_iff.mp h), Option.map_none]

/-- A word ends where it does, and in front of a blank. -/
theorem readWord_append
    {bracket : Bool} {cs chars rest more : List Char}
    (h : readWord bracket cs = some (chars, rest)) (hmore : ∀ c ∈ more.head?, isBlank c = true) :
    readWord bracket (cs ++ more) = some (chars, rest ++ more) := by
  induction cs generalizing bracket chars with
  | nil =>
      rw [readWord] at h
      cases bracket with
      | true => cases h
      | false =>
          cases h
          cases more with
          | nil => rfl
          | cons c more =>
              have hends : endsWord c = true := by simp [endsWord, hmore c rfl]
              rw [List.nil_append, readWord, hends]
              rfl
  | cons c cs ih =>
      rw [List.cons_append, readWord]
      rw [readWord] at h
      split at h
      · next hends =>
          cases h
          rw [if_pos hends]
          rfl
      · next hends =>
          obtain ⟨⟨found, later⟩, hfound, hpair⟩ := Option.map_eq_some_iff.mp h
          obtain ⟨rfl, rfl⟩ := Prod.mk.inj hpair
          rw [if_neg hends]
          simp only [ih hfound, Option.map_some]

/-- Blanks do not close a bracket. -/
theorem readWord_append_blank
    {bracket : Bool} {cs blanks : List Char} (h : readWord bracket cs = none)
    (hblanks : AllBlank blanks) :
    readWord bracket (cs ++ blanks) = none := by
  have hopen {blanks : List Char} (hblanks : AllBlank blanks) : readWord true blanks = none := by
    induction blanks with
    | nil => rfl
    | cons c cs ih =>
        obtain ⟨hc, hcs⟩ := List.forall_mem_cons.mp hblanks
        have hclose : (c != ']') = true := by
          rw [bne_iff_ne]
          rintro rfl
          exact absurd hc (by decide)
        rw [readWord]
        simp [hclose, ih hcs]
  induction cs generalizing bracket with
  | nil =>
      cases bracket with
      | true => exact hopen hblanks
      | false => cases h
  | cons c cs ih =>
      rw [List.cons_append, readWord]
      rw [readWord] at h
      split at h
      · cases h
      · next hends =>
          rw [if_neg hends]
          simp only [ih (Option.map_eq_none_iff.mp h), Option.map_none]

/-! ## Lexemes -/

theorem readAll_nil : readAll [] = .ok [] := by
  unfold readAll
  rfl

theorem readAll_of_isBlank {c : Char} (h : isBlank c = true) (cs : List Char) :
    readAll (c :: cs) = readAll cs := by
  conv_lhs => unfold readAll
  rw [if_pos h]

theorem readAll_of_mark {c : Char} {lexeme : Lexeme} (hblank : ¬isBlank c = true)
    (hmark : mark? c = some lexeme) (cs : List Char) :
    readAll (c :: cs) = (readAll cs).map (lexeme :: ·) := by
  conv_lhs => unfold readAll
  rw [if_neg hblank, hmark]

theorem readAll_blank {blanks : List Char} (h : AllBlank blanks) (rest : List Char) :
    readAll (blanks ++ rest) = readAll rest := by
  induction blanks with
  | nil => rfl
  | cons c cs ih =>
      obtain ⟨hc, hcs⟩ := List.forall_mem_cons.mp h
      rw [List.cons_append, readAll_of_isBlank hc, ih hcs]

/-- What stands at the front is a quoted text or a word. -/
theorem readAll_cons {c : Char} (hblank : ¬ isBlank c = true) (hmark : mark? c = none)
    (cs : List Char) :
    readAll (c :: cs) =
      if isQuote c then
        match readQuoted c false cs with
        | none => .error .unterminatedText
        | some (text, rest) => (readAll rest).map (.quoted (String.ofList text) :: ·)
      else
        match readWord (c == '[') cs with
        | none => .error .unterminatedBracket
        | some (chars, rest) => (readAll rest).map (.word (String.ofList (c :: chars)) :: ·) := by
  conv_lhs => unfold readAll
  rw [if_neg hblank, hmark]
  simp only
  split
  · split
    · next hquoted => rw [hquoted]
    · next hquoted => rw [hquoted]
  · split
    · next hword => rw [hword]
    · next hword => rw [hword]

theorem isQuote_ne {c : Char} (h : isQuote c = true) : c ≠ '\\' := by
  rintro rfl
  exact absurd h (by decide)

theorem map_append_cons (x : Except Malformed (List Lexeme)) (l : Lexeme) (ls : List Lexeme) :
    (x.map (ls ++ ·)).map (l :: ·) = x.map ((l :: ls) ++ ·) := by
  cases x <;> rfl

/-- The lexemes of a text that is read stay in front of what follows behind a blank. -/
theorem readAll_append
    {left more : List Char} {ls : List Lexeme} (h : readAll left = .ok ls)
    (hmore : ∀ c ∈ more.head?, isBlank c = true) :
    readAll (left ++ more) = (readAll more).map (ls ++ ·) := by
  fun_induction readAll left generalizing ls with
  | case1 =>
      cases h
      rw [List.nil_append]
      cases readAll more <;> rfl
  | case2 c cs hblank ih =>
      rw [List.cons_append, readAll_of_isBlank hblank, ih h]
  | case3 c cs hblank lexeme hmark ih =>
      obtain ⟨found, hfound, rfl⟩ := map_eq_ok.mp h
      rw [List.cons_append, readAll_of_mark hblank hmark]
      simp only [ih hfound, map_append_cons]
  | case4 => cases h
  | case5 c cs hblank hmark hquote text rest hquoted hlt ih =>
      obtain ⟨found, hfound, rfl⟩ := map_eq_ok.mp h
      rw [List.cons_append, readAll_cons hblank hmark, if_pos hquote,
        readQuoted_append (isQuote_ne hquote) hquoted]
      simp only [ih hfound, map_append_cons]
  | case6 => cases h
  | case7 c cs hblank hmark hquote chars rest hword hle ih =>
      obtain ⟨found, hfound, rfl⟩ := map_eq_ok.mp h
      rw [List.cons_append, readAll_cons hblank hmark, if_neg hquote, readWord_append hword hmore]
      simp only [ih hfound, map_append_cons]

theorem map_eq_error {ε α β : Type} {x : Except ε α} {f : α → β} {e : ε} :
    x.map f = .error e ↔ x = .error e := by
  cases x <;> simp [Except.map]

/-- Blanks behind a text that cannot be read do not change why. -/
theorem readAll_append_of_error
    {cs blanks : List Char} {e : Malformed} (h : readAll cs = .error e)
    (hblanks : AllBlank blanks) :
    readAll (cs ++ blanks) = .error e := by
  fun_induction readAll cs with
  | case1 => cases h
  | case2 c cs hblank ih => rw [List.cons_append, readAll_of_isBlank hblank, ih h]
  | case3 c cs hblank lexeme hmark ih =>
      rw [List.cons_append, readAll_of_mark hblank hmark]
      simp only [ih (map_eq_error.mp h)]
      rfl
  | case4 c cs hblank hmark hquote hquoted =>
      rw [List.cons_append, readAll_cons hblank hmark, if_pos hquote,
        readQuoted_append_blank (isBlank_of_isQuote hquote) hquoted hblanks]
      exact h
  | case5 c cs hblank hmark hquote text rest hquoted hlt ih =>
      rw [List.cons_append, readAll_cons hblank hmark, if_pos hquote,
        readQuoted_append (isQuote_ne hquote) hquoted]
      simp only [ih (map_eq_error.mp h)]
      rfl
  | case6 c cs hblank hmark hquote hword =>
      rw [List.cons_append, readAll_cons hblank hmark, if_neg hquote,
        readWord_append_blank hword hblanks]
      exact h
  | case7 c cs hblank hmark hquote chars rest hword hle ih =>
      rw [List.cons_append, readAll_cons hblank hmark, if_neg hquote,
        readWord_append hword hblanks.head?]
      simp only [ih (map_eq_error.mp h)]
      rfl

/-- Blanks at the ends of a text separate nothing. -/
theorem readAll_trim (cs : List Char) : readAll (trim cs) = readAll cs := by
  obtain ⟨lead, hcs, hlead⟩ := exists_trimStart cs
  obtain ⟨tail, htrim, htail⟩ := exists_trimEnd (trimStart cs)
  have hstart : readAll cs = readAll (trimStart cs) := by
    conv_lhs => rw [hcs, readAll_blank hlead]
  rw [hstart, htrim, ← trim]
  cases hread : readAll (trim cs) with
  | error e => rw [readAll_append_of_error hread htail]
  | ok ls =>
      have hnil : readAll tail = .ok [] := by
        rw [← List.append_nil tail, readAll_blank htail, readAll_nil]
      rw [readAll_append hread htail.head?, hnil]
      simp [Except.map]

/-- Between lexemes any blanks are as good as others. -/
theorem readAll_relaid
    {left blanks blanks' : List Char} {ls : List Lexeme} (h : readAll left = .ok ls)
    (hblanks : AllBlank blanks) (hblanks' : AllBlank blanks') (hne : blanks ≠ [])
    (hne' : blanks' ≠ []) (right : List Char) :
    readAll (left ++ (blanks ++ right)) = readAll (left ++ (blanks' ++ right)) := by
  have hread {blanks : List Char} (hblanks : AllBlank blanks) (hne : blanks ≠ []) :
      readAll (left ++ (blanks ++ right)) = (readAll right).map (ls ++ ·) := by
    rw [readAll_append h, readAll_blank hblanks]
    rw [List.head?_append_of_ne_nil _ hne]
    exact hblanks.head?
  rw [hread hblanks hne, hread hblanks' hne']

end Lexeme
end Template
end TemplateModules
