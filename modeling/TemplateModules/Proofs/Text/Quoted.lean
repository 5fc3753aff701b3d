import TemplateModules.Text.Quoted
import Mathlib.Tactic.Common

/-!
# Quoting is undone by reading

A quoted text has one written form, which can be read back whatever follows the closing quote.
Hence different texts are quoted differently, and no character between the quotes ends the literal
or the line.
-/

namespace TemplateModules
namespace Text

/-- What stands between the quotes of a quoted text. -/
def escaped (cs : List Char) : List Char :=
  cs.flatMap quoteChar

@[simp]
theorem escaped_nil : escaped [] = [] := rfl

@[simp]
theorem escaped_cons (c : Char) (cs : List Char) :
    escaped (c :: cs) = quoteChar c ++ escaped cs := rfl

theorem quote_eq (cs : List Char) :
    quote cs = '"' :: (escaped cs ++ ['"']) := by
  simp [quote, escaped]

theorem toList_quoted (s : String) :
    (quoted s).toList = '"' :: (escaped s.toList ++ ['"']) := by
  rw [quoted, String.toList_ofList, quote_eq]

/-- Hexadecimal digits are read as the numbers that they stand for. -/
theorem hexValue?_hexDigit {n : Nat} (hn : n < 16) :
    hexValue? (hexDigit n) = some n := by
  have hall : ∀ m < 16, hexValue? (hexDigit m) = some m := by decide
  exact hall n hn

/-- An escape is a backslash with a letter or a mark, or one with the four digits of a control
character; every other character stands for itself. -/
theorem quoteChar_cases (c : Char) :
    (∃ d ∈ ['"', '\\', 'n', 'r', 't', 'b', 'f'], quoteChar c = ['\\', d]) ∨
      (c.toNat < 0x20 ∧
        quoteChar c =
          ['\\', 'u', '0', '0', hexDigit (c.toNat / 16), hexDigit (c.toNat % 16)]) ∨
      (c ≠ '"' ∧ c ≠ '\\' ∧ 0x20 ≤ c.toNat ∧ quoteChar c = [c]) := by
  unfold quoteChar
  split_ifs with hquote hslash hnewline hreturn htab hback hfeed hcontrol
  · exact Or.inl ⟨'"', by simp, rfl⟩
  · exact Or.inl ⟨'\\', by simp, rfl⟩
  · exact Or.inl ⟨'n', by simp, rfl⟩
  · exact Or.inl ⟨'r', by simp, rfl⟩
  · exact Or.inl ⟨'t', by simp, rfl⟩
  · exact Or.inl ⟨'b', by simp, rfl⟩
  · exact Or.inl ⟨'f', by simp, rfl⟩
  · exact Or.inr (Or.inl ⟨hcontrol, rfl⟩)
  · exact Or.inr (Or.inr ⟨hquote, hslash, Nat.le_of_not_lt hcontrol, rfl⟩)

/-- A character that is neither a quote, a backslash nor a control character stands for itself. -/
theorem quoteChar_of_plain {c : Char} (hquote : c ≠ '"') (hslash : c ≠ '\\') (hc : 0x20 ≤ c.toNat) :
    quoteChar c = [c] := by
  have hcontrol : ∀ d ∈ ['\n', '\r', '\t', '\x08', '\x0c'], c ≠ d := by
    intro d hd heq
    have hall : (['\n', '\r', '\t', '\x08', '\x0c'].all fun e => e.toNat < 0x20) = true := by
      decide
    have hsmall := List.all_eq_true.mp hall d hd
    rw [← heq, decide_eq_true_eq] at hsmall
    omega
  simp only [List.mem_cons, List.not_mem_nil, or_false, forall_eq_or_imp, forall_eq] at hcontrol
  simp [quoteChar, hquote, hslash, hcontrol, Nat.not_lt.mpr hc]

/-- How the reader of quoted texts takes one character. -/
def unitOf (c : Char) : Unit16 :=
  match quoteChar c with
  | '\\' :: 'u' :: _ => .unit c.toNat
  | _ => .char c

/-- The escape of a character is read as this character. -/
theorem unquoteUnits_quoteChar (c : Char) (rest : List Char) :
    unquoteUnits (quoteChar c ++ rest) =
      (unquoteUnits rest).map fun (units, rest) => (unitOf c :: units, rest) := by
  unfold unitOf quoteChar
  split_ifs with hquote hslash hnewline hreturn htab hback hfeed hcontrol
  · subst hquote; rfl
  · subst hslash; rfl
  · subst hnewline; rfl
  · subst hreturn; rfl
  · subst htab; rfl
  · subst hback; rfl
  · subst hfeed; rfl
  · have hhigh : hexValue? (hexDigit (c.toNat / 16)) = some (c.toNat / 16) :=
      hexValue?_hexDigit (by omega)
    have hlow : hexValue? (hexDigit (c.toNat % 16)) = some (c.toNat % 16) :=
      hexValue?_hexDigit (by omega)
    have hunit : hexUnit? '0' '0' (hexDigit (c.toNat / 16)) (hexDigit (c.toNat % 16)) =
        some c.toNat := by
      have hzero : hexValue? '0' = some 0 := by decide
      simp only [hexUnit?, hzero, hhigh, hlow, Option.bind_eq_bind, Option.bind_some,
        Option.pure_def, Option.some.injEq]
      omega
    simp only [List.cons_append, List.nil_append, unquoteUnits, hunit]
  · have hplain : ¬(c = '\\' ∨ c.toNat < 0x20) := by tauto
    rw [List.singleton_append, unquoteUnits.eq_def]
    split
    · next hnil => cases hnil
    · next hcons => exact absurd (List.cons.inj hcons).1 hquote
    · next hcons => exact absurd (List.cons.inj hcons).1 hslash
    · next hcons => exact absurd (List.cons.inj hcons).1 hslash
    · next d later _ _ _ hcons =>
      obtain ⟨rfl, rfl⟩ := List.cons.inj hcons
      rw [if_neg hplain]
      split
      · next heq => cases heq
      · rfl

/-- A unit that is read for a character is joined as this character. -/
theorem joinUnits_unitOf (c : Char) (units : List Unit16) :
    joinUnits (unitOf c :: units) = (joinUnits units).map (c :: ·) := by
  unfold unitOf
  split
  · next tail hquote =>
    have hsmall : c.toNat < 0x20 := by
      unfold quoteChar at hquote
      split_ifs at hquote <;> simp_all
    have hhigh : isHighSurrogate c.toNat = false := by
      simp only [isHighSurrogate, Bool.and_eq_false_iff, decide_eq_false_iff_not]
      omega
    have hlow : isLowSurrogate c.toNat = false := by
      simp only [isLowSurrogate, Bool.and_eq_false_iff, decide_eq_false_iff_not]
      omega
    cases units with
    | nil => simp [joinUnits, hhigh, hlow]
    | cons u units =>
      cases u with
      | char d => simp [joinUnits, hhigh, hlow]
      | unit n => simp [joinUnits, hhigh, hlow]
  · simp [joinUnits]

/-- Reading gives back the quoted text and what follows it. -/
theorem unquote_escaped (cs rest : List Char) :
    unquote (escaped cs ++ '"' :: rest) = some (cs, rest) := by
  have hunits : unquoteUnits (escaped cs ++ '"' :: rest) = some (cs.map unitOf, rest) := by
    induction cs with
    | nil => rfl
    | cons c cs ih =>
      rw [escaped_cons, List.append_assoc, unquoteUnits_quoteChar, ih]
      rfl
  have hjoin : joinUnits (cs.map unitOf) = some cs := by
    clear hunits
    induction cs with
    | nil => rfl
    | cons c cs ih => rw [List.map_cons, joinUnits_unitOf, ih]; rfl
  simp [unquote, hunits, hjoin]

theorem escaped_injective {xs ys : List Char} (h : escaped xs = escaped ys) :
    xs = ys := by
  have hx := unquote_escaped xs []
  rw [h, unquote_escaped ys []] at hx
  simpa using hx.symm

/-- A quoted text holds no line end. -/
theorem not_lineEnd_of_mem_quoteChar
    {c d : Char} (hd : d ∈ quoteChar c) :
    d ≠ '\n' ∧ d ≠ '\r' := by
  have hhex : ∀ n < 16, hexDigit n ≠ '\n' ∧ hexDigit n ≠ '\r' := by decide
  obtain ⟨e, he, hquote⟩ | ⟨hsmall, hquote⟩ | ⟨_, _, hlarge, hquote⟩ := quoteChar_cases c
  · rw [hquote] at hd
    simp only [List.mem_cons, List.not_mem_nil, or_false] at hd he
    rcases hd with rfl | rfl
    · decide
    · rcases he with rfl | rfl | rfl | rfl | rfl | rfl | rfl <;> decide
  · rw [hquote] at hd
    simp only [List.mem_cons, List.not_mem_nil, or_false] at hd
    rcases hd with rfl | rfl | rfl | rfl | rfl | rfl
    · decide
    · decide
    · decide
    · decide
    · exact hhex _ (by omega)
    · exact hhex _ (by omega)
  · rw [hquote, List.mem_singleton] at hd
    subst hd
    constructor <;> rintro rfl <;> exact absurd hlarge (by decide)

/-! ## Texts in one line -/

/-- A text without newlines. -/
def OneLine (s : String) : Prop := '\n' ∉ s.toList

instance (s : String) : Decidable (OneLine s) :=
  inferInstanceAs (Decidable ('\n' ∉ s.toList))

theorem OneLine.append {s t : String} (hs : OneLine s) (ht : OneLine t) : OneLine (s ++ t) := by
  rw [OneLine, String.toList_append, List.mem_append, not_or]
  exact ⟨hs, ht⟩

theorem OneLine.intercalate
    {separator : String} {texts : List String} (hseparator : OneLine separator)
    (htexts : ∀ s ∈ texts, OneLine s) :
    OneLine (separator.intercalate texts) := by
  induction texts with
  | nil => exact List.not_mem_nil
  | cons s texts ih =>
      have hs := htexts s List.mem_cons_self
      by_cases hmore : texts = []
      · rw [hmore, String.intercalate_singleton]
        exact hs
      · rw [String.intercalate_cons_of_ne_nil hmore]
        exact (hs.append hseparator).append
          (ih fun t ht => htexts t (List.mem_cons_of_mem s ht))

/-- A quoted text does not end its line. -/
theorem oneLine_quoted (s : String) : OneLine (quoted s) := by
  intro hmem
  rw [toList_quoted, List.mem_cons, List.mem_append, List.mem_singleton] at hmem
  rcases hmem with h | h | h
  · cases h
  · obtain ⟨c, -, hc⟩ := List.mem_flatMap.mp h
    exact (not_lineEnd_of_mem_quoteChar hc).1 rfl
  · cases h

end Text
end TemplateModules
