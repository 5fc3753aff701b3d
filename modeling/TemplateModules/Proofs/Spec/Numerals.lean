import Mathlib.Tactic.Common
import TemplateModules.Proofs.Template.Grammar
import TemplateModules.Spec.Text

/-!
# Numbers in code

A number of a template is copied into the code as it is written.  The two languages write decimal
numbers by the same rules, except that a template may put zeros in front of the digits of a number,
and strict code may not.
-/

namespace TemplateModules
namespace Spec

open Template

/-! ## Decimal numbers -/

/-- One digit or more. -/
def IsDigits (cs : List Char) : Prop :=
  cs ≠ [] ∧ ∀ c ∈ cs, isDigit c = true

/-- The digits in front of the point, as strict code allows them: a zero stands there alone. -/
def IsStrictDigits (cs : List Char) : Prop :=
  cs = ['0'] ∨ (IsDigits cs ∧ cs.head? ≠ some '0')

/-- Nothing, or a point with the digits behind it. -/
inductive IsFraction : List Char → Prop where
  | none : IsFraction []
  | point {digits : List Char} (hdigits : ∀ c ∈ digits, isDigit c = true) :
      IsFraction ('.' :: digits)

/-- Nothing, or a power of ten. -/
inductive IsPower : List Char → Prop where
  | none : IsPower []
  | exponent {mark : Char} {sign digits : List Char}
      (hmark : mark = 'e' ∨ mark = 'E')
      (hsign : sign = [] ∨ sign = ['+'] ∨ sign = ['-'])
      (hdigits : IsDigits digits) :
      IsPower (mark :: (sign ++ digits))

/-- Nothing, or a minus sign. -/
def IsMinus (cs : List Char) : Prop :=
  cs = [] ∨ cs = ['-']

/-- A decimal number, with a condition on the digits in front of its point. -/
def IsDecimal (IsWhole : List Char → Prop) (cs : List Char) : Prop :=
  ∃ minus whole fraction power,
    cs = minus ++ (whole ++ (fraction ++ power)) ∧
    IsMinus minus ∧ IsWhole whole ∧ IsFraction fraction ∧ IsPower power

/-- A number starts with a zero in front of another digit. -/
def IsPadded (cs : List Char) : Prop :=
  ∃ minus digit rest, cs = minus ++ '0' :: digit :: rest ∧ IsMinus minus ∧ isDigit digit = true

/-! ## Reading -/

theorem dropWhile_isDigit
    {digits rest : List Char} (hdigits : ∀ c ∈ digits, isDigit c = true)
    (hrest : ∀ c ∈ rest.head?, isDigit c = false) :
    (digits ++ rest).dropWhile isDigit = rest := by
  rw [List.dropWhile_append_of_pos hdigits]
  cases rest with
  | nil => rfl
  | cons c rest => rw [List.dropWhile_cons_of_neg (by simpa using hrest c rfl)]

/-- A digit is no sign, so an exponent that has none is read as it is. -/
theorem isExponent_unsigned
    {mark : Char} {digits : List Char} (hdigits : ∀ c ∈ digits, isDigit c = true) :
    isExponent (mark :: digits) =
      ((mark == 'e' || mark == 'E') && !digits.isEmpty && digits.all isDigit) := by
  simp only [isExponent]
  split
  · exact absurd (hdigits '+' List.mem_cons_self) (by decide)
  · exact absurd (hdigits '-' List.mem_cons_self) (by decide)
  · rfl

theorem isPower_iff {cs : List Char} : IsPower cs ↔ isExponent cs = true := by
  constructor
  · intro h
    cases h with
    | none => rfl
    | @exponent mark sign digits hmark hsign hdigits =>
        obtain ⟨hne, hdigits⟩ := hdigits
        have hmark : (mark == 'e' || mark == 'E') = true := by simpa using hmark
        have hall : digits.all isDigit = true := List.all_eq_true.mpr hdigits
        have hempty : digits.isEmpty = false := List.isEmpty_eq_false_iff.mpr hne
        rcases hsign with rfl | rfl | rfl
        · rw [List.nil_append, isExponent_unsigned hdigits, hmark, hempty, hall]
          rfl
        · simp [isExponent, hmark, hall, hempty]
        · simp [isExponent, hmark, hall, hempty]
  · intro h
    cases cs with
    | nil => exact .none
    | cons mark cs =>
        simp only [isExponent, Bool.and_eq_true, Bool.or_eq_true, beq_iff_eq, Bool.not_eq_true',
          List.isEmpty_eq_false_iff] at h
        obtain ⟨⟨hmark, hne⟩, hall⟩ := h
        have hdigits := And.intro hne (List.all_eq_true.mp hall)
        split at hdigits
        · exact .exponent hmark (.inr (.inl rfl)) hdigits
        · exact .exponent hmark (.inr (.inr rfl)) hdigits
        · exact .exponent hmark (.inl rfl) hdigits

theorem IsPower.head?_eq {cs : List Char} (h : IsPower cs) :
    ∀ c ∈ cs.head?, c = 'e' ∨ c = 'E' := by
  cases h with
  | none => simp
  | exponent hmark => rintro c ⟨⟩; exact hmark

/-- Behind the digits in front of the point there is no further digit. -/
theorem isDigit_head?_tail
    {fraction power : List Char} (hfraction : IsFraction fraction) (hpower : IsPower power) :
    ∀ c ∈ (fraction ++ power).head?, isDigit c = false := by
  cases hfraction with
  | none =>
      intro c hc
      rcases hpower.head?_eq c hc with rfl | rfl <;> decide
  | point => rintro c ⟨⟩; decide

/-- A minus sign is skipped. -/
theorem dropLeading_minus
    {minus rest : List Char} (hminus : IsMinus minus)
    (hrest : ∀ c ∈ rest.head?, isDigit c = true) :
    dropLeading '-' (minus ++ rest) = rest := by
  obtain rfl | rfl := hminus
  · cases rest with
    | nil => rfl
    | cons c rest =>
        have hc : c ≠ '-' := by
          rintro rfl
          exact absurd (hrest '-' rfl) (by decide)
        rw [List.nil_append, dropLeading, if_neg hc]
  · rfl

theorem exists_minus (cs : List Char) :
    ∃ minus, IsMinus minus ∧ cs = minus ++ dropLeading '-' cs := by
  cases cs with
  | nil => exact ⟨[], .inl rfl, rfl⟩
  | cons c cs =>
      by_cases hc : c = '-'
      · exact ⟨['-'], .inr rfl, by simp [dropLeading, hc]⟩
      · exact ⟨[], .inl rfl, by simp [dropLeading, hc]⟩

theorem IsDigits.head?_append {whole : List Char} (h : IsDigits whole) (rest : List Char) :
    ∀ c ∈ (whole ++ rest).head?, isDigit c = true := by
  obtain ⟨hne, hwhole⟩ := h
  obtain ⟨c, cs, rfl⟩ := List.exists_cons_of_ne_nil hne
  rintro d ⟨⟩
  exact hwhole c List.mem_cons_self

theorem isDecimal_of_isNumber {cs : List Char} (h : isNumber cs = true) :
    IsDecimal IsDigits cs := by
  simp only [isNumber, Bool.and_eq_true] at h
  obtain ⟨hhead, hrest⟩ := h
  obtain ⟨minus, hminus, hcs⟩ := exists_minus cs
  generalize dropLeading '-' cs = digits at hcs hhead hrest
  have hwhole : IsDigits (digits.takeWhile isDigit) := by
    refine ⟨?_, fun c hc => List.all_eq_true.mp List.all_takeWhile c hc⟩
    cases digits with
    | nil => cases hhead
    | cons c digits =>
        rw [List.takeWhile_cons_of_pos (by simpa using hhead)]
        exact List.cons_ne_nil _ _
  have hdigits := List.takeWhile_append_dropWhile (p := isDigit) (l := digits)
  split at hrest
  · next fraction hpoint =>
      refine ⟨minus, digits.takeWhile isDigit, '.' :: fraction.takeWhile isDigit,
        fraction.dropWhile isDigit, ?_, hminus, hwhole,
        .point fun c hc => List.all_eq_true.mp List.all_takeWhile c hc, isPower_iff.mpr hrest⟩
      rw [hcs, List.cons_append, List.takeWhile_append_dropWhile, ← hpoint, hdigits]
  · refine ⟨minus, digits.takeWhile isDigit, [], digits.dropWhile isDigit, ?_, hminus, hwhole,
      .none, isPower_iff.mpr hrest⟩
    rw [hcs, List.nil_append, hdigits]

theorem isNumber_of_isDecimal {cs : List Char} (h : IsDecimal IsDigits cs) :
    isNumber cs = true := by
  obtain ⟨minus, whole, fraction, power, rfl, hminus, hwhole, hfraction, hpower⟩ := h
  have hdrop := dropLeading_minus hminus (hwhole.head?_append (fraction ++ power))
  have htail := dropWhile_isDigit hwhole.2 (isDigit_head?_tail hfraction hpower)
  simp only [isNumber, hdrop, htail, Bool.and_eq_true]
  refine ⟨?_, ?_⟩
  · obtain ⟨c, cs, rfl⟩ := List.exists_cons_of_ne_nil hwhole.1
    exact hwhole.2 c List.mem_cons_self
  · have hdigit : ∀ c ∈ power.head?, isDigit c = false := isDigit_head?_tail .none hpower
    cases hfraction with
    | none =>
        rw [List.nil_append]
        split
        · next fraction => simpa using hpower.head?_eq '.' rfl
        · exact isPower_iff.mp hpower
    | point hdigits =>
        simp only [List.cons_append, dropWhile_isDigit hdigits hdigit]
        exact isPower_iff.mp hpower

/-- A word is a number just if it is a decimal number, with any digits in front of the point. -/
theorem isNumber_iff {cs : List Char} : isNumber cs = true ↔ IsDecimal IsDigits cs :=
  ⟨isDecimal_of_isNumber, isNumber_of_isDecimal⟩

/-! ## Zeros in front -/

theorem IsStrictDigits.isDigits {cs : List Char} (h : IsStrictDigits cs) : IsDigits cs := by
  obtain rfl | ⟨hdigits, -⟩ := h
  · exact ⟨List.cons_ne_nil _ _, by simp [isDigit]⟩
  · exact hdigits

/-- In strict code no zero stands in front of other digits. -/
theorem not_isPadded_of_strict {cs : List Char} (h : IsDecimal IsStrictDigits cs) :
    ¬ IsPadded cs := by
  rintro ⟨minus', digit, rest, hpadded, hminus', hdigit⟩
  obtain ⟨minus, whole, fraction, power, rfl, hminus, hwhole, hfraction, hpower⟩ := h
  have htail : whole ++ (fraction ++ power) = '0' :: digit :: rest := by
    have hdrop := congrArg (dropLeading '-') hpadded
    rwa [dropLeading_minus hminus (hwhole.isDigits.head?_append _),
      dropLeading_minus hminus' (by rintro c ⟨⟩; decide)] at hdrop
  obtain rfl | ⟨⟨hne, -⟩, hzero⟩ := hwhole
  · have hbehind : fraction ++ power = digit :: rest := (List.cons.inj htail).2
    have hnone := isDigit_head?_tail hfraction hpower
    rw [hbehind] at hnone
    rw [hnone digit rfl] at hdigit
    contradiction
  · obtain ⟨c, cs, rfl⟩ := List.exists_cons_of_ne_nil hne
    rw [(List.cons.inj htail).1] at hzero
    exact hzero rfl

theorem strict_of_not_isPadded
    {cs : List Char} (h : IsDecimal IsDigits cs) (hpadded : ¬ IsPadded cs) :
    IsDecimal IsStrictDigits cs := by
  obtain ⟨minus, whole, fraction, power, rfl, hminus, hwhole, hfraction, hpower⟩ := h
  refine ⟨minus, whole, fraction, power, rfl, hminus, ?_, hfraction, hpower⟩
  by_cases hzero : whole.head? = some '0'
  · obtain ⟨digits, rfl⟩ := List.head?_eq_some_iff.mp hzero
    cases digits with
    | nil => exact .inl rfl
    | cons digit digits =>
        have hdigit : isDigit digit = true := hwhole.2 digit (by simp)
        exact absurd ⟨minus, digit, digits ++ (fraction ++ power), rfl, hminus, hdigit⟩ hpadded
  · exact .inr ⟨hwhole, hzero⟩

/-! ## The text of a number -/

/-- A word is read as a number just if it is a decimal number.  The number is written as the word,
and strict code can hold that text unless zeros are in front of its digits. -/
theorem ofWord_number (word : String) :
    ((∃ n, Expr.ofWord word = .ok (.literal (.number n))) ↔ IsDecimal IsDigits word.toList) ∧
    ∀ n, Expr.ofWord word = .ok (.literal (.number n)) →
      literalText (.number n) = word ∧
      (IsDecimal IsStrictDigits (literalText (.number n)).toList ↔ ¬ IsPadded word.toList) := by
  have htext {n : Numeral} (h : Expr.ofWord word = .ok (.literal (.number n))) : n.text = word := by
    have hlexeme := (isExpr_of_ofWord h).eq_lexemes
    exact (Lexeme.word.inj (List.cons.inj hlexeme).1).symm
  refine ⟨⟨?_, ?_⟩, ?_⟩
  · rintro ⟨n, hn⟩
    rw [← htext hn]
    exact isNumber_iff.mp n.isNumber_text
  · intro hdecimal
    exact ⟨⟨word, isNumber_iff.mpr hdecimal⟩, ofWord_of_lexeme rfl⟩
  · intro n hn
    have hdecimal : IsDecimal IsDigits word.toList := by
      rw [← htext hn]
      exact isNumber_iff.mp n.isNumber_text
    refine ⟨htext hn, ?_⟩
    rw [show literalText (.number n) = word from htext hn]
    exact ⟨not_isPadded_of_strict, strict_of_not_isPadded hdecimal⟩

/-- A negative number with a fraction and a power of ten. -/
def scaledNumber : Numeral :=
  ⟨"-0.5e+07", by decide⟩

theorem scaledNumber_strict :
    Expr.ofWord "-0.5e+07" = .ok (.literal (.number scaledNumber)) ∧
      literalText (.number scaledNumber) = "-0.5e+07" ∧
      IsDecimal IsStrictDigits "-0.5e+07".toList := by
  have hread : Expr.ofWord "-0.5e+07" = .ok (.literal (.number scaledNumber)) :=
    ofWord_of_lexeme rfl
  have hpadded : ¬ IsPadded "-0.5e+07".toList := by
    rintro ⟨minus, digit, rest, htext, rfl | rfl, hdigit⟩
    · cases htext
    · cases htext
      exact absurd hdigit (by decide)
  obtain ⟨htext, hstrict⟩ := (ofWord_number "-0.5e+07").2 scaledNumber hread
  rw [htext] at hstrict
  exact ⟨hread, htext, hstrict.mpr hpadded⟩

/-- A number with zeros in front is written into the code with them. -/
theorem paddedSeven_notStrict :
    ∃ n, Expr.ofWord "007" = .ok (.literal (.number n)) ∧ literalText (.number n) = "007" ∧
      ¬ IsDecimal IsStrictDigits "007".toList := by
  refine ⟨⟨"007", by decide⟩, ofWord_of_lexeme rfl, rfl, fun hstrict => ?_⟩
  exact not_isPadded_of_strict hstrict ⟨[], '0', ['7'], rfl, .inl rfl, by decide⟩

end Spec
end TemplateModules
