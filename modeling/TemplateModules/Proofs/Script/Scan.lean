import TemplateModules.Proofs.Text.Quoted

/-!
# Scanning scripts

A script is scanned for its string literals, which stand in double quotes and have escapes with a
backslash; everything else counts as code.  The main facts are that a scan can be cut wherever no
literal is open, and that a quoted text is exactly one literal, whatever it holds.

Brackets are counted in the code only.  `nest` follows a stretch of code and keeps the closing
brackets that are still awaited.
-/

namespace TemplateModules
namespace Script

open Text

/-- What a scan meets: a character of code, or a string literal, given by the text between its
quotes. -/
inductive Mark where
  | char (c : Char)
  | literal (raw : List Char)
  deriving DecidableEq, Repr

/-- Where a scan stands.  The part of an open literal that is read already is kept in reverse. -/
inductive ScanState where
  | code
  | inLiteral (raw : List Char)
  /-- Behind a backslash in a literal. -/
  | inEscape (raw : List Char)
  deriving DecidableEq, Repr

/-- Whether a character ends a line. -/
def isLineEnd (c : Char) : Bool :=
  c == '\n' || c == '\r'

/-- Scans a script from a state on, unless a literal is still open where a line or the text ends. -/
def scanFrom : ScanState → List Char → Option (List Mark)
  | .code, [] => some []
  | .inLiteral _, [] => none
  | .inEscape _, [] => none
  | .code, c :: cs =>
      if c = '"' then scanFrom (.inLiteral []) cs else (scanFrom .code cs).map (.char c :: ·)
  | .inLiteral raw, c :: cs =>
      if c = '"' then (scanFrom .code cs).map (.literal raw.reverse :: ·)
      else if c = '\\' then scanFrom (.inEscape (c :: raw)) cs
      else if isLineEnd c then none
      else scanFrom (.inLiteral (c :: raw)) cs
  | .inEscape raw, c :: cs =>
      if isLineEnd c then none else scanFrom (.inLiteral (c :: raw)) cs

/-- Scans a script, unless one of its literals is not closed on its line. -/
def scan (cs : List Char) : Option (List Mark) :=
  scanFrom .code cs

/-- Code without literals. -/
def chars (cs : List Char) : List Mark :=
  cs.map .char

@[simp]
theorem chars_nil : chars [] = [] := rfl

@[simp]
theorem chars_cons (c : Char) (cs : List Char) :
    chars (c :: cs) = .char c :: chars cs := rfl

@[simp]
theorem chars_append (xs ys : List Char) :
    chars (xs ++ ys) = chars xs ++ chars ys :=
  List.map_append

/-! ## Cutting a scan -/

/-- A scan that ends outside of literals goes on with what follows. -/
theorem scanFrom_append
    {state : ScanState} {xs ys : List Char} {ms : List Mark}
    (h : scanFrom state xs = some ms) :
    scanFrom state (xs ++ ys) = (scan ys).map (ms ++ ·) := by
  induction xs generalizing state ms with
  | nil =>
      cases state with
      | code =>
          have hms : ms = [] := by simpa [scanFrom] using h.symm
          subst hms
          simp [scan]
      | inLiteral raw => simp [scanFrom] at h
      | inEscape raw => simp [scanFrom] at h
  | cons x xs ih =>
      rw [List.cons_append]
      cases state with
      | code =>
          by_cases hquote : x = '"'
          · simp only [scanFrom, if_pos hquote] at h ⊢
            exact ih h
          · simp only [scanFrom, if_neg hquote] at h ⊢
            obtain ⟨ms', hms', rfl⟩ := Option.map_eq_some_iff.mp h
            rw [ih hms', Option.map_map]
            rfl
      | inLiteral raw =>
          simp only [scanFrom] at h ⊢
          split_ifs at h ⊢ with hquote hslash hend
          · obtain ⟨ms', hms', rfl⟩ := Option.map_eq_some_iff.mp h
            rw [ih hms', Option.map_map]
            rfl
          · exact ih h
          · exact ih h
      | inEscape raw =>
          simp only [scanFrom] at h ⊢
          split_ifs at h ⊢ with hend
          exact ih h

theorem scan_append
    {xs ys : List Char} {ms ns : List Mark}
    (hxs : scan xs = some ms) (hys : scan ys = some ns) :
    scan (xs ++ ys) = some (ms ++ ns) := by
  rw [scan, scanFrom_append hxs, hys, Option.map_some]

theorem scan_chars {cs : List Char} (h : '"' ∉ cs) :
    scan cs = some (chars cs) := by
  induction cs with
  | nil => rfl
  | cons c cs ih =>
      have hc : c ≠ '"' := fun hc => h (by simp [hc])
      have hcs : scanFrom .code cs = some (chars cs) :=
        ih fun hcs => h (List.mem_cons_of_mem _ hcs)
      simp [scan, scanFrom, hc, hcs]

/-- What a scan meets outside of literals stands in the text. -/
theorem mem_of_mem_scanFrom
    {state : ScanState} {cs : List Char} {ms : List Mark} {c : Char}
    (h : scanFrom state cs = some ms) (hc : Mark.char c ∈ ms) : c ∈ cs := by
  fun_induction scanFrom state cs generalizing ms with
  | case1 =>
      cases h
      cases hc
  | case2 => cases h
  | case3 => cases h
  | case4 cs ih => exact List.mem_cons_of_mem _ (ih h hc)
  | case5 d cs hquote ih =>
      obtain ⟨later, hlater, rfl⟩ := Option.map_eq_some_iff.mp h
      rcases List.mem_cons.mp hc with hfirst | hc
      · rw [Mark.char.inj hfirst]
        exact List.mem_cons_self
      · exact List.mem_cons_of_mem _ (ih hlater hc)
  | case6 raw cs ih =>
      obtain ⟨later, hlater, rfl⟩ := Option.map_eq_some_iff.mp h
      rcases List.mem_cons.mp hc with hfirst | hc
      · cases hfirst
      · exact List.mem_cons_of_mem _ (ih hlater hc)
  | case7 raw cs hslash ih => exact List.mem_cons_of_mem _ (ih h hc)
  | case8 => cases h
  | case9 raw d cs hquote hslash hend ih => exact List.mem_cons_of_mem _ (ih h hc)
  | case10 => cases h
  | case11 raw d cs hend ih => exact List.mem_cons_of_mem _ (ih h hc)

theorem ofList_append
    {a b : String} {cs ds : List Char} (ha : a = String.ofList cs) (hb : b = String.ofList ds) :
    a ++ b = String.ofList (cs ++ ds) := by
  rw [ha, hb, String.ofList_append]

/-- Inside a literal the escape of a character is read as part of the literal. -/
theorem scanFrom_quoteChar (raw : List Char) (c : Char) (rest : List Char) :
    scanFrom (.inLiteral raw) (quoteChar c ++ rest) =
      scanFrom (.inLiteral ((quoteChar c).reverse ++ raw)) rest := by
  have hhex : ∀ n < 16, hexDigit n ≠ '"' ∧ hexDigit n ≠ '\\' ∧ isLineEnd (hexDigit n) = false := by
    decide
  obtain ⟨d, hd, hquote⟩ | ⟨hsmall, hquote⟩ | ⟨hc, hslash, hlarge, hquote⟩ := quoteChar_cases c
  · have hend : isLineEnd d = false := by
      simp only [List.mem_cons, List.not_mem_nil, or_false] at hd
      rcases hd with rfl | rfl | rfl | rfl | rfl | rfl | rfl <;> decide
    simp [hquote, scanFrom, hend]
  · obtain ⟨ha1, ha2, ha3⟩ := hhex (c.toNat / 16) (by omega)
    obtain ⟨hb1, hb2, hb3⟩ := hhex (c.toNat % 16) (by omega)
    have hu : isLineEnd 'u' = false := by decide
    have hzero : isLineEnd '0' = false := by decide
    simp [hquote, scanFrom, hu, hzero, ha1, ha2, ha3, hb1, hb2, hb3]
  · have hend : isLineEnd c = false := by
      have hmem : c ∈ quoteChar c := by simp [hquote]
      have hne := not_lineEnd_of_mem_quoteChar hmem
      simp [isLineEnd, hne.1, hne.2]
    simp [hquote, scanFrom, hc, hslash, hend]

theorem scan_quote (cs : List Char) :
    scan (quote cs) = some [.literal (escaped cs)] := by
  have hgo : ∀ raw rest : List Char,
      scanFrom (.inLiteral raw) (escaped cs ++ '"' :: rest) =
        (scan rest).map (.literal (raw.reverse ++ escaped cs) :: ·) := by
    induction cs with
    | nil =>
        intro raw rest
        simp [scanFrom, scan]
    | cons c cs ih =>
        intro raw rest
        rw [escaped_cons, List.append_assoc, scanFrom_quoteChar, ih]
        simp
  have hscan := hgo [] []
  rw [quote_eq, scan, scanFrom, if_pos rfl, hscan]
  rfl

/-- A quoted text is one literal. -/
theorem scan_quoted (s : String) :
    scan (quoted s).toList = some [.literal (escaped s.toList)] := by
  rw [quoted, String.toList_ofList, scan_quote]

/-! ## Brackets -/

/-- The bracket that closes an opening one. -/
def closing? : Char → Option Char
  | '(' => some ')'
  | '[' => some ']'
  | '\x7b' => some '\x7d'
  | _ => none

/-- Whether a character is a closing bracket. -/
def isClosing (c : Char) : Bool :=
  c == ')' || c == ']' || c == '\x7d'

/-- The closing brackets that are awaited after a mark, the innermost first, if they are `awaited`
before it.  A bracket that closes nothing or the wrong one has no such list. -/
def bracket (awaited : List Char) : Mark → Option (List Char)
  | .literal _ => some awaited
  | .char c =>
      match closing? c with
      | some d => some (d :: awaited)
      | none =>
          if isClosing c then
            if awaited.head? = some c then some awaited.tail else none
          else some awaited

/-- Follows the brackets of a script, from a list of closing brackets that are awaited. -/
def nest (awaited : List Char) (ms : List Mark) : Option (List Char) :=
  ms.foldlM bracket awaited

/-- Every bracket of a script is closed by one of its kind, and nested brackets are closed first. -/
def Balanced (ms : List Mark) : Prop :=
  nest [] ms = some []

instance (ms : List Mark) : Decidable (Balanced ms) :=
  inferInstanceAs (Decidable (nest [] ms = some []))

@[simp]
theorem nest_nil (awaited : List Char) : nest awaited [] = some awaited := rfl

theorem nest_cons (awaited : List Char) (m : Mark) (ms : List Mark) :
    nest awaited (m :: ms) = (bracket awaited m).bind (nest · ms) := by
  simp [nest, List.foldlM_cons]

theorem nest_append (awaited : List Char) (ms ns : List Mark) :
    nest awaited (ms ++ ns) = (nest awaited ms).bind (nest · ns) := by
  simp [nest, List.foldlM_append]

/-- What a bracket does to the awaited ones is independent of those further out. -/
theorem bracket_frame
    {awaited after : List Char} {m : Mark}
    (h : bracket awaited m = some after) (outer : List Char) :
    bracket (awaited ++ outer) m = some (after ++ outer) := by
  cases m with
  | literal raw => simpa [bracket] using h
  | char c =>
      simp only [bracket] at h ⊢
      cases hopen : closing? c with
      | some d =>
          rw [hopen] at h
          simp [← Option.some.inj h]
      | none =>
          rw [hopen] at h
          cases hclosing : isClosing c with
          | false => simp_all
          | true =>
              cases awaited with
              | nil => simp [hclosing] at h
              | cons d awaited => simp_all

/-- A walk through brackets does not depend on brackets that are awaited further out. -/
theorem nest_frame
    {awaited after : List Char} {ms : List Mark}
    (h : nest awaited ms = some after) (outer : List Char) :
    nest (awaited ++ outer) ms = some (after ++ outer) := by
  induction ms generalizing awaited with
  | nil =>
      have hafter : awaited = after := by simpa using h
      rw [hafter, nest_nil]
  | cons m ms ih =>
      rw [nest_cons] at h ⊢
      obtain ⟨next, hnext, hrest⟩ := Option.bind_eq_some_iff.mp h
      rw [bracket_frame hnext outer, Option.bind_some]
      exact ih hrest

def brackets : List Char := ['(', ')', '[', ']', '\x7b', '\x7d']

theorem closing?_of_notMem {c : Char} (h : c ∉ brackets) : closing? c = none := by
  unfold closing?
  split
  · exact absurd (by decide) h
  · exact absurd (by decide) h
  · exact absurd (by decide) h
  · rfl

theorem isClosing_of_notMem {c : Char} (h : c ∉ brackets) : isClosing c = false := by
  simp only [brackets, List.mem_cons, not_or] at h
  simp [isClosing, h]

/-- Code without brackets leaves the awaited ones as they are. -/
theorem nest_chars_of_no_bracket
    (awaited : List Char) {cs : List Char}
    (h : ∀ c ∈ cs, c ∉ brackets) :
    nest awaited (chars cs) = some awaited := by
  induction cs with
  | nil => rfl
  | cons c cs ih =>
      have hc := h c (by simp)
      have hbracket : bracket awaited (.char c) = some awaited := by
        simp [bracket, closing?_of_notMem hc, isClosing_of_notMem hc]
      rw [chars_cons, nest_cons, hbracket, Option.bind_some]
      exact ih fun d hd => h d (List.mem_cons_of_mem _ hd)

end Script
end TemplateModules
