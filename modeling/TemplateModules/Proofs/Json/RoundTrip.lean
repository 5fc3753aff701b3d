import Mathlib.Data.List.Induction
import Mathlib.Data.List.Nodup
import Mathlib.Data.List.TakeDrop
import Mathlib.Tactic.Common
import TemplateModules.Json.Written
import TemplateModules.Proofs.Text.Quoted

/-!
# Reading written JSON

The text of a value is read back as this value if its numbers are integers of 64 bits, no object
repeats a key, and lists and objects are not nested too deeply.
-/

namespace TemplateModules

open Text

/-! ## Values that can be read back -/

/-- A number is an integer of 64 bits, with or without a sign. -/
def JsonNumber.IsInteger : JsonNumber → Prop
  | int n => -9223372036854775808 ≤ n ∧ n ≤ Written.maxNatural
  | float _ => False

namespace Json

mutual

/-- A value whose lists and objects are nested at most `depth` deep can be read back. -/
def Plain : Nat → Json → Prop
  | _, null => True
  | _, bool _ => True
  | _, number n => n.IsInteger
  | _, text _ => True
  | 0, list _ => False
  | 0, object _ => False
  | depth + 1, list items => PlainItems depth items
  | depth + 1, object fields => (fields.map Prod.fst).Nodup ∧ PlainFields depth fields

/-- Items that can be read back. -/
def PlainItems : Nat → List Json → Prop
  | _, [] => True
  | depth, v :: vs => Plain depth v ∧ PlainItems depth vs

/-- Fields that can be read back. -/
def PlainFields : Nat → List (String × Json) → Prop
  | _, [] => True
  | depth, (_, v) :: fields => Plain depth v ∧ PlainFields depth fields

end

end Json

namespace Fields

variable {α : Type}

theorem insert_of_notMem
    {fields : Fields α} {key : String} (value : α) (h : key ∉ fields.map Prod.fst) :
    Fields.insert fields key value = fields ++ [(key, value)] := by
  induction fields with
  | nil => rfl
  | cons field fields ih =>
      obtain ⟨k, v⟩ := field
      rw [List.map_cons, List.mem_cons, not_or] at h
      rw [Fields.insert, if_neg (Ne.symm h.1), ih h.2]
      rfl

/-- Pairs without repeated keys are the fields that they stand for. -/
theorem ofPairs_eq {pairs : List (String × α)} (h : (pairs.map Prod.fst).Nodup) :
    ofPairs pairs = pairs := by
  induction pairs using List.reverseRecOn with
  | nil => rfl
  | append_singleton pairs pair ih =>
      rw [List.map_append, List.nodup_append] at h
      have hnew : pair.1 ∉ pairs.map Prod.fst := by
        intro hmem
        exact h.2.2 _ hmem _ (List.mem_singleton_self _) rfl
      have hpairs := ih h.1
      rw [ofPairs] at hpairs ⊢
      rw [List.foldl_append, hpairs]
      exact insert_of_notMem pair.2 hnew

end Fields

namespace Written

/-! ## Numbers -/

/-- The digits of a number, the highest first. -/
def decimals (n : Nat) : List Nat :=
  (Nat.toDigits 10 n).map fun c => c.toNat - 0x30

/-- Nothing follows a number that could belong to it. -/
def Ended (rest : List Char) : Prop :=
  ∀ c ∈ rest.head?, c = ',' ∨ c = ']' ∨ c = '\x7d'

theorem toNat_digitChar {n : Nat} (hn : n < 10) : n.digitChar.toNat - 0x30 = n := by
  have hall : ∀ m < 10, m.digitChar.toNat - 0x30 = m := by decide
  exact hall n hn

theorem decimals_of_lt {n : Nat} (hn : n < 10) : decimals n = [n] := by
  rw [decimals, Nat.toDigits_of_lt_base hn, List.map_singleton, toNat_digitChar hn]

theorem decimals_of_le {n : Nat} (hn : 10 ≤ n) :
    decimals n = decimals (n / 10) ++ [n % 10] := by
  rw [decimals, Nat.toDigits_of_base_le (by decide) hn, List.map_append, List.map_singleton,
    toNat_digitChar (Nat.mod_lt n (by decide)), ← decimals]

/-- Only zero starts with the digit zero. -/
theorem exists_decimals_eq {n : Nat} (hn : 0 < n) :
    ∃ d digits, decimals n = d :: digits ∧ d ≠ 0 := by
  induction n using Nat.strongRecOn with
  | ind n ih =>
      by_cases hsmall : n < 10
      · exact ⟨n, [], decimals_of_lt hsmall, by omega⟩
      · obtain ⟨d, digits, hdigits, hd⟩ := ih (n / 10) (by omega) (by omega)
        exact ⟨d, digits ++ [n % 10], by rw [decimals_of_le (by omega), hdigits]; rfl, hd⟩

theorem appendDigits_concat
    {start n d : Nat} {digits : List Nat} (h : appendDigits start digits = (n, 0))
    (hsmall : n * 10 + d ≤ maxNatural) :
    appendDigits start (digits ++ [d]) = (n * 10 + d, 0) := by
  induction digits generalizing start with
  | nil =>
      obtain ⟨rfl, -⟩ := Prod.mk.inj h
      rw [List.nil_append, appendDigits, if_neg (Nat.not_lt.mpr hsmall), appendDigits]
  | cons e digits ih =>
      rw [List.cons_append, appendDigits]
      rw [appendDigits] at h
      split at h
      · simp at h
      · next hfits => rw [if_neg hfits, ih h]

theorem appendDigits_decimals {n : Nat} (hn : n ≤ maxNatural) :
    appendDigits 0 (decimals n) = (n, 0) := by
  induction n using Nat.strongRecOn with
  | ind n ih =>
      by_cases hsmall : n < 10
      · rw [decimals_of_lt hsmall, appendDigits, if_neg (by omega), appendDigits, Nat.zero_mul,
          Nat.zero_add]
      · have hvalue : n / 10 * 10 + n % 10 = n := by
          omega
        have hrec := ih (n / 10) (by omega) (by omega)
        rw [decimals_of_le (by omega), appendDigits_concat hrec (by omega), hvalue]

theorem takeDigits_toDigits (n : Nat) {rest : List Char} (hrest : Ended rest) :
    takeDigits (Nat.toDigits 10 n ++ rest) = (decimals n, rest) := by
  have hdigits : ∀ c ∈ Nat.toDigits 10 n, ('0' ≤ c && c ≤ '9') = true := by
    intro c hc
    exact Nat.isDigit_of_mem_toDigits (by decide) (by decide) hc
  have hend : ∀ c ∈ rest.head?, ('0' ≤ c && c ≤ '9') = false := by
    intro c hc
    rcases hrest c hc with rfl | rfl | rfl <;> rfl
  have htake : rest.takeWhile (fun c => '0' ≤ c && c ≤ '9') = [] := by
    cases rest with
    | nil => rfl
    | cons c rest => rw [List.takeWhile_cons_of_neg (by simp [hend c rfl])]
  have hdrop : rest.dropWhile (fun c => '0' ≤ c && c ≤ '9') = rest := by
    cases rest with
    | nil => rfl
    | cons c rest => rw [List.dropWhile_cons_of_neg (by simp [hend c rfl])]
  rw [takeDigits, List.span_eq_takeWhile_dropWhile, List.takeWhile_append_of_pos hdigits,
    List.dropWhile_append_of_pos hdigits, htake, hdrop, List.append_nil]
  rfl

/-- A number without a fraction and an exponent is read to its end. -/
theorem readNumber_toDigits
    (negative : Bool) {n : Nat} (hn : n ≤ maxNatural) {rest : List Char} (hrest : Ended rest) :
    readNumber negative (Nat.toDigits 10 n ++ rest) =
      some (.number (integer negative n), rest) := by
  have hwhole : decimals n ≠ [] ∧ ∀ d digits, decimals n ≠ 0 :: d :: digits := by
    by_cases hzero : n = 0
    · rw [hzero, decimals_of_lt (by decide)]
      simp
    · obtain ⟨d, digits, hdigits, hd⟩ := exists_decimals_eq (Nat.pos_of_ne_zero hzero)
      rw [hdigits]
      simp [hd]
  simp only [readNumber, takeDigits_toDigits n hrest]
  split
  · next hnil => exact absurd hnil hwhole.1
  · next d digits hleading => exact absurd hleading (hwhole.2 _ _)
  · rw [appendDigits_decimals hn]
    cases rest with
    | nil => rfl
    | cons c rest => rcases hrest c rfl with rfl | rfl | rfl <;> rfl

/-! ## Values -/

theorem skipBlanks_cons
    {c : Char} {cs : List Char} (hc : ¬(c = ' ' ∨ c = '\n' ∨ c = '\t' ∨ c = '\r')) :
    skipBlanks (c :: cs) = c :: cs := by
  rw [skipBlanks, if_neg hc]

theorem readText_escaped (s : String) (rest : List Char) :
    readText (escaped s.toList ++ '"' :: rest) = some (some s, rest) := by
  have h := unquote_escaped s.toList rest
  rw [unquote] at h
  cases hunits : unquoteUnits (escaped s.toList ++ '"' :: rest) with
  | none => simp [hunits] at h
  | some read =>
      obtain ⟨units, later⟩ := read
      simp only [hunits, Option.bind_eq_bind, Option.bind_some, Option.bind_eq_some_iff,
        Option.pure_def, Option.some.injEq, Prod.mk.injEq] at h
      obtain ⟨text, htext, rfl, rfl⟩ := h
      simp [readText, hunits, htext]

theorem ne_of_isDigit {c d : Char} (hc : c.isDigit = true) (hd : d.isDigit = false) : c ≠ d := by
  rintro rfl
  rw [hd] at hc
  contradiction

theorem exists_toDigits_eq (n : Nat) :
    ∃ c cs, Nat.toDigits 10 n = c :: cs ∧ c.isDigit = true := by
  obtain ⟨c, cs, hdigits⟩ := List.exists_cons_of_ne_nil (Nat.toDigits_ne_nil (n := n) (b := 10))
  exact ⟨c, cs, hdigits,
    Nat.isDigit_of_mem_toDigits (by decide) (by decide) (hdigits ▸ List.mem_cons_self)⟩

/-- A digit starts a number. -/
theorem readValue_digit
    {c : Char} (fuel : Nat) (cs : List Char) (hc : c.isDigit = true) :
    readValue (fuel + 1) (c :: cs) = readNumber false (c :: cs) := by
  have hne : ∀ d : Char, d.isDigit = false → c ≠ d := fun d hd => ne_of_isDigit hc hd
  have hblank : skipBlanks (c :: cs) = c :: cs := by
    apply skipBlanks_cons
    simp [hne ' ' rfl, hne '\n' rfl, hne '\t' rfl, hne '\r' rfl]
  rw [readValue, hblank]
  split
  · next h => exact absurd (List.cons.inj h).1 (hne _ rfl)
  · next h => exact absurd (List.cons.inj h).1 (hne _ rfl)
  · next h => exact absurd (List.cons.inj h).1 (hne _ rfl)
  · next h => exact absurd (List.cons.inj h).1 (hne _ rfl)
  · next h => exact absurd (List.cons.inj h).1 (hne _ rfl)
  · next h => exact absurd (List.cons.inj h).1 (hne _ rfl)
  · next h => exact absurd (List.cons.inj h).1 (hne _ rfl)
  · rfl

theorem readValue_toDigits
    (fuel : Nat) {n : Nat} (hn : n ≤ maxNatural) {rest : List Char} (hrest : Ended rest) :
    readValue (fuel + 1) (Nat.toDigits 10 n ++ rest) =
      some (.number (some (.int n)), rest) := by
  obtain ⟨c, cs, hdigits, hc⟩ := exists_toDigits_eq n
  have hread := readNumber_toDigits false hn hrest
  rw [hdigits, List.cons_append] at hread ⊢
  rw [readValue_digit fuel _ hc, hread]
  rfl

theorem toList_write_ofNat (n : Nat) :
    (Json.number (.int (.ofNat n))).write.toList = Nat.toDigits 10 n := by
  rw [Json.write]
  exact Nat.toList_repr

theorem toList_write_negSucc (n : Nat) :
    (Json.number (.int (.negSucc n))).write.toList = '-' :: Nat.toDigits 10 (n + 1) := by
  rw [Json.write]
  change ("-" ++ Nat.repr (n + 1)).toList = _
  rw [String.toList_append, Nat.toList_repr]
  rfl

theorem readValue_int
    (fuel : Nat) {n : Int} (hn : (JsonNumber.int n).IsInteger) {rest : List Char}
    (hrest : Ended rest) :
    readValue (fuel + 1) ((Json.number (.int n)).write.toList ++ rest) =
      some (.number (some (.int n)), rest) := by
  obtain ⟨hlow, hhigh⟩ := hn
  cases n with
  | ofNat n =>
      have hsmall : n ≤ maxNatural := by
        rw [Int.ofNat_eq_natCast] at hhigh
        exact Int.ofNat_le.mp hhigh
      rw [toList_write_ofNat]
      exact readValue_toDigits fuel hsmall hrest
  | negSucc n =>
      have hlimit : Nat.pow 2 63 = 9223372036854775808 := rfl
      have hsmall : n + 1 ≤ Nat.pow 2 63 := by
        rw [Int.negSucc_eq] at hlow
        omega
      have hfits : n + 1 ≤ maxNatural := Nat.le_trans hsmall (by decide)
      rw [toList_write_negSucc, List.cons_append]
      change readNumber true _ = _
      rw [readNumber_toDigits true hfits hrest, integer, if_pos rfl,
        if_pos ⟨Nat.succ_pos n, hsmall⟩]
      rfl

/-! ## Lists and objects -/

theorem toList_write_list (items : List Json) :
    (Json.list items).write.toList = '[' :: ((Json.writeItems items).toList ++ [']']) := by
  rw [Json.write, String.toList_append, String.toList_append]
  rfl

theorem toList_write_object (fields : List (String × Json)) :
    (Json.object fields).write.toList =
      '\x7b' :: ((Json.writeFields fields).toList ++ ['\x7d']) := by
  rw [Json.write, String.toList_append, String.toList_append]
  rfl

theorem toList_writeItems_single (v : Json) :
    (Json.writeItems [v]).toList = v.write.toList := by
  rw [Json.writeItems]

theorem toList_writeItems_cons (v : Json) {vs : List Json} (hvs : vs ≠ []) :
    (Json.writeItems (v :: vs)).toList =
      v.write.toList ++ ',' :: (Json.writeItems vs).toList := by
  rw [Json.writeItems, String.toList_append, String.toList_append, List.append_assoc]
  · rfl
  · exact hvs

theorem toList_writeFields_single (key : String) (v : Json) :
    (Json.writeFields [(key, v)]).toList =
      '"' :: (escaped key.toList ++ '"' :: ':' :: v.write.toList) := by
  rw [Json.writeFields, String.toList_append, String.toList_append, toList_quoted]
  simp

theorem toList_writeFields_cons
    (key : String) (v : Json) {fields : List (String × Json)} (hfields : fields ≠ []) :
    (Json.writeFields ((key, v) :: fields)).toList =
      '"' :: (escaped key.toList ++ '"' :: ':' ::
        (v.write.toList ++ ',' :: (Json.writeFields fields).toList)) := by
  rw [Json.writeFields, String.toList_append, String.toList_append, String.toList_append,
    String.toList_append, toList_quoted]
  · simp
  · exact hfields

theorem oneLine_toDigits (n : Nat) : '\n' ∉ Nat.toDigits 10 n := by
  intro hmem
  exact absurd (Nat.isDigit_of_mem_toDigits (by decide) (by decide) hmem) (by decide)

theorem oneLine_write_int (n : Int) : OneLine (Json.number (.int n)).write := by
  cases n with
  | ofNat n =>
      rw [OneLine, toList_write_ofNat]
      exact oneLine_toDigits n
  | negSucc n =>
      rw [OneLine, toList_write_negSucc, List.mem_cons, not_or]
      exact ⟨by decide, oneLine_toDigits (n + 1)⟩

mutual

/-- A value is written in one line. -/
theorem oneLine_write : ∀ (depth : Nat) (v : Json), v.Plain depth → OneLine v.write
  | _, .null, _ => by decide
  | _, .bool b, _ => by cases b <;> decide
  | _, .number (.int n), _ => oneLine_write_int n
  | _, .number (.float x), h => absurd h (by simp [Json.Plain, JsonNumber.IsInteger])
  | _, .text s, _ => oneLine_quoted s
  | 0, .list items, h => absurd h (by simp [Json.Plain])
  | 0, .object fields, h => absurd h (by simp [Json.Plain])
  | depth + 1, .list items, h => by
      have hopen : OneLine "[" := by decide
      have hclose : OneLine "]" := by decide
      exact (hopen.append (oneLine_writeItems depth items (by simpa [Json.Plain] using h))).append
        hclose
  | depth + 1, .object fields, h => by
      obtain ⟨-, hplain⟩ : (fields.map Prod.fst).Nodup ∧ Json.PlainFields depth fields := by
        simpa [Json.Plain] using h
      have hopen : OneLine "\x7b" := by decide
      have hclose : OneLine "\x7d" := by decide
      exact (hopen.append (oneLine_writeFields depth fields hplain)).append hclose

theorem oneLine_writeItems :
    ∀ (depth : Nat) (items : List Json), Json.PlainItems depth items →
      OneLine (Json.writeItems items)
  | _, [], _ => by decide
  | depth, [v], h => oneLine_write depth v h.1
  | depth, v :: w :: vs, h => by
      have hcomma : OneLine "," := by decide
      exact ((oneLine_write depth v h.1).append hcomma).append
        (oneLine_writeItems depth (w :: vs) h.2)

theorem oneLine_writeFields :
    ∀ (depth : Nat) (fields : List (String × Json)), Json.PlainFields depth fields →
      OneLine (Json.writeFields fields)
  | _, [], _ => by decide
  | depth, [(key, v)], h => by
      have hcolon : OneLine ":" := by decide
      exact ((oneLine_quoted key).append hcolon).append (oneLine_write depth v h.1)
  | depth, (key, v) :: field :: fields, h => by
      have hcolon : OneLine ":" := by decide
      have hcomma : OneLine "," := by decide
      exact ((((oneLine_quoted key).append hcolon).append (oneLine_write depth v h.1)).append
        hcomma).append (oneLine_writeFields depth (field :: fields) h.2)

end

/-- The text of a value starts with a mark that is neither blank nor the end of a list. -/
theorem exists_write_eq {depth : Nat} {v : Json} (h : v.Plain depth) :
    ∃ c cs, v.write.toList = c :: cs ∧
      ¬(c = ' ' ∨ c = '\n' ∨ c = '\t' ∨ c = '\r') ∧ c ≠ ']' := by
  cases v with
  | null => exact ⟨'n', _, rfl, by decide, by decide⟩
  | bool b => cases b <;> exact ⟨_, _, rfl, by decide, by decide⟩
  | number n =>
      cases n with
      | float x => exact absurd h id
      | int n =>
          cases n with
          | ofNat n =>
              obtain ⟨c, cs, hdigits, hc⟩ := exists_toDigits_eq n
              refine ⟨c, cs, (toList_write_ofNat n).trans hdigits, ?_, ne_of_isDigit hc rfl⟩
              simp [ne_of_isDigit hc (d := ' ') rfl, ne_of_isDigit hc (d := '\n') rfl,
                ne_of_isDigit hc (d := '\t') rfl, ne_of_isDigit hc (d := '\r') rfl]
          | negSucc n =>
              rw [toList_write_negSucc]
              exact ⟨'-', _, rfl, by decide, by decide⟩
  | text s =>
      rw [Json.write, toList_quoted]
      exact ⟨'"', _, rfl, by decide, by decide⟩
  | list items =>
      rw [toList_write_list]
      exact ⟨'[', _, rfl, by decide, by decide⟩
  | object fields =>
      rw [toList_write_object]
      exact ⟨'\x7b', _, rfl, by decide, by decide⟩

/-- The text of items starts with the text of the first one. -/
theorem exists_writeItems_eq {items : List Json} (hitems : items ≠ []) :
    ∃ v ∈ items, ∃ tail, (Json.writeItems items).toList = v.write.toList ++ tail := by
  obtain ⟨v, vs, rfl⟩ := List.exists_cons_of_ne_nil hitems
  refine ⟨v, List.mem_cons_self, ?_⟩
  by_cases hvs : vs = []
  · exact ⟨[], by rw [hvs, toList_writeItems_single, List.append_nil]⟩
  · exact ⟨_, toList_writeItems_cons v hvs⟩

/-- The text of fields starts with the quote of the first key. -/
theorem exists_writeFields_eq {fields : List (String × Json)} (hfields : fields ≠ []) :
    ∃ tail, (Json.writeFields fields).toList = '"' :: tail := by
  obtain ⟨⟨key, v⟩, fields, rfl⟩ := List.exists_cons_of_ne_nil hfields
  by_cases hmore : fields = []
  · exact ⟨_, by rw [hmore, toList_writeFields_single]⟩
  · exact ⟨_, toList_writeFields_cons key v hmore⟩

theorem plain_of_mem
    {depth : Nat} {items : List Json} {v : Json}
    (h : Json.PlainItems depth items) (hv : v ∈ items) : v.Plain depth := by
  induction items with
  | nil => cases hv
  | cons w items ih =>
      rcases List.mem_cons.mp hv with rfl | hv
      · exact h.1
      · exact ih h.2 hv

theorem readValue_bracket
    {c : Char} (fuel : Nat) (cs : List Char)
    (hblank : ¬(c = ' ' ∨ c = '\n' ∨ c = '\t' ∨ c = '\r')) (hbracket : c ≠ ']') :
    readValue (fuel + 1) ('[' :: c :: cs) =
      (readItems fuel (c :: cs)).map fun (items, rest) => (.list items, rest) := by
  rw [readValue, skipBlanks_cons (by decide)]
  simp only [skipBlanks_cons hblank]
  split
  · next h => exact absurd (List.cons.inj h).1 hbracket
  · rfl

theorem readValue_brace (fuel : Nat) (cs : List Char) :
    readValue (fuel + 1) ('\x7b' :: '"' :: cs) =
      (readFields fuel ('"' :: cs)).map fun (fields, rest) => (.object fields, rest) := rfl

theorem readValue_text (fuel : Nat) (s : String) (rest : List Char) :
    readValue (fuel + 1) ((Json.text s).write.toList ++ rest) = some (.text (some s), rest) := by
  rw [Json.write, toList_quoted, List.cons_append, List.append_assoc]
  change (readText _).map _ = _
  rw [List.singleton_append, readText_escaped]
  rfl

theorem readValue_list
    {depth fuel : Nat} {items : List Json} {documents : List Written} {rest : List Char}
    (hplain : Json.PlainItems depth items) (hitems : items ≠ [])
    (hread : readItems fuel ((Json.writeItems items).toList ++ ']' :: rest) =
      some (documents, rest)) :
    readValue (fuel + 1) ((Json.list items).write.toList ++ rest) =
      some (.list documents, rest) := by
  obtain ⟨first, hfirst, tail, htail⟩ := exists_writeItems_eq hitems
  obtain ⟨c, cs, hwrite, hblank, hbracket⟩ := exists_write_eq (plain_of_mem hplain hfirst)
  rw [htail, hwrite, List.append_assoc] at hread
  rw [toList_write_list, htail, hwrite, List.cons_append, List.append_assoc, List.append_assoc,
    List.singleton_append, List.cons_append, readValue_bracket fuel _ hblank hbracket,
    ← List.cons_append, hread]
  rfl

theorem readValue_object
    {fuel : Nat} {fields : List (String × Json)} {documents : List (Option String × Written)}
    {rest : List Char} (hfields : fields ≠ [])
    (hread : readFields fuel ((Json.writeFields fields).toList ++ '\x7d' :: rest) =
      some (documents, rest)) :
    readValue (fuel + 1) ((Json.object fields).write.toList ++ rest) =
      some (.object documents, rest) := by
  obtain ⟨tail, htail⟩ := exists_writeFields_eq hfields
  rw [htail, List.cons_append] at hread
  rw [toList_write_object, htail, List.cons_append, List.cons_append, List.cons_append,
    List.append_assoc, List.singleton_append, readValue_brace, hread]
  rfl

theorem readItems_last
    {fuel : Nat} {text rest : List Char} {document : Written}
    (hread : readValue fuel text = some (document, ']' :: rest)) :
    readItems (fuel + 1) text = some ([document], rest) := by
  rw [readItems, hread]
  rfl

theorem readItems_next
    {fuel : Nat} {text more : List Char} {document : Written}
    (hread : readValue fuel text = some (document, ',' :: more)) :
    readItems (fuel + 1) text =
      (readItems fuel more).map fun (items, rest) => (document :: items, rest) := by
  rw [readItems, hread]
  rfl

theorem readFields_last
    {fuel : Nat} {text rest : List Char} {document : Written} (key : String)
    (hread : readValue fuel text = some (document, '\x7d' :: rest)) :
    readFields (fuel + 1) ('"' :: (escaped key.toList ++ '"' :: ':' :: text)) =
      some ([(some key, document)], rest) := by
  rw [readFields, skipBlanks_cons (by decide)]
  simp only [readText_escaped]
  rw [skipBlanks_cons (by decide)]
  simp only [hread]
  rfl

theorem readFields_next
    {fuel : Nat} {text more : List Char} {document : Written} (key : String)
    (hread : readValue fuel text = some (document, ',' :: more)) :
    readFields (fuel + 1) ('"' :: (escaped key.toList ++ '"' :: ':' :: text)) =
      (readFields fuel more).map fun (fields, rest) => ((some key, document) :: fields, rest) := by
  rw [readFields, skipBlanks_cons (by decide)]
  simp only [readText_escaped]
  rw [skipBlanks_cons (by decide)]
  simp only [hread]
  rfl

mutual

/-- A value is read back, with what follows it. -/
theorem readValue_write
    (depth : Nat) (v : Json) (h : v.Plain depth) (fuel : Nat) (rest : List Char)
    (hrest : Ended rest) (hfuel : 2 * v.write.toList.length + 1 ≤ fuel) :
    ∃ document, readValue fuel (v.write.toList ++ rest) = some (document, rest) ∧
      valueWithin? depth document = some v := by
  have hpos : 0 < fuel := Nat.lt_of_lt_of_le (Nat.succ_pos _) hfuel
  obtain ⟨fuel, rfl⟩ := Nat.exists_eq_add_one_of_ne_zero (Nat.ne_of_gt hpos)
  cases v with
  | null => exact ⟨.null, rfl, by simp [valueWithin?]⟩
  | bool b => cases b <;> exact ⟨.bool _, rfl, by simp [valueWithin?]⟩
  | number n =>
      cases n with
      | float x => exact absurd h (by simp [Json.Plain, JsonNumber.IsInteger])
      | int n =>
          refine ⟨.number (some (.int n)), readValue_int fuel ?_ hrest, by simp [valueWithin?]⟩
          simpa [Json.Plain] using h
  | text s => exact ⟨.text (some s), readValue_text fuel s rest, by simp [valueWithin?]⟩
  | list items =>
      cases depth with
      | zero => exact absurd h (by simp [Json.Plain])
      | succ depth =>
          have hplain : Json.PlainItems depth items := by
            simpa [Json.Plain] using h
          by_cases hitems : items = []
          · rw [hitems]
            exact ⟨.list [], rfl, by simp [valueWithin?, itemsWithin?]⟩
          · rw [toList_write_list] at hfuel
            simp only [List.length_cons, List.length_append, List.length_nil] at hfuel
            obtain ⟨documents, hread, hvalues⟩ :=
              readItems_write depth items hplain fuel rest (by omega) hitems
            exact ⟨.list documents, readValue_list hplain hitems hread,
              by simp [valueWithin?, hvalues]⟩
  | object fields =>
      cases depth with
      | zero => exact absurd h (by simp [Json.Plain])
      | succ depth =>
          obtain ⟨hkeys, hplain⟩ : (fields.map Prod.fst).Nodup ∧ Json.PlainFields depth fields := by
            simpa [Json.Plain] using h
          by_cases hfields : fields = []
          · rw [hfields]
            exact ⟨.object [], rfl, by simp [valueWithin?, fieldsWithin?, Fields.ofPairs]⟩
          · rw [toList_write_object] at hfuel
            simp only [List.length_cons, List.length_append, List.length_nil] at hfuel
            obtain ⟨documents, hread, hvalues⟩ :=
              readFields_write depth fields hplain fuel rest (by omega) hfields
            exact ⟨.object documents, readValue_object hfields hread,
              by simp [valueWithin?, hvalues, Fields.ofPairs_eq hkeys]⟩

/-- Items are read back up to the closing bracket. -/
theorem readItems_write
    (depth : Nat) (items : List Json) (h : Json.PlainItems depth items) (fuel : Nat)
    (rest : List Char) (hfuel : 2 * (Json.writeItems items).toList.length + 2 ≤ fuel)
    (hitems : items ≠ []) :
    ∃ documents, readItems fuel ((Json.writeItems items).toList ++ ']' :: rest) =
        some (documents, rest) ∧
      itemsWithin? depth documents = some items := by
  have hpos : 0 < fuel := Nat.lt_of_lt_of_le (Nat.succ_pos _) hfuel
  obtain ⟨fuel, rfl⟩ := Nat.exists_eq_add_one_of_ne_zero (Nat.ne_of_gt hpos)
  cases items with
  | nil => exact absurd rfl hitems
  | cons v vs =>
      by_cases hvs : vs = []
      · rw [hvs, toList_writeItems_single] at hfuel ⊢
        obtain ⟨document, hread, hvalue⟩ :=
          readValue_write depth v h.1 fuel (']' :: rest) (by simp [Ended]) (by omega)
        exact ⟨[document], readItems_last hread, by simp [itemsWithin?, hvalue]⟩
      · rw [toList_writeItems_cons v hvs] at hfuel ⊢
        simp only [List.length_append, List.length_cons] at hfuel
        obtain ⟨document, hread, hvalue⟩ :=
          readValue_write depth v h.1 fuel
            (',' :: ((Json.writeItems vs).toList ++ ']' :: rest)) (by simp [Ended]) (by omega)
        obtain ⟨documents, hmore, hvalues⟩ :=
          readItems_write depth vs h.2 fuel rest (by omega) hvs
        refine ⟨document :: documents, ?_, by simp [itemsWithin?, hvalue, hvalues]⟩
        rw [List.append_assoc, List.cons_append, readItems_next hread, hmore]
        rfl

/-- Fields are read back up to the closing brace. -/
theorem readFields_write
    (depth : Nat) (fields : List (String × Json)) (h : Json.PlainFields depth fields) (fuel : Nat)
    (rest : List Char) (hfuel : 2 * (Json.writeFields fields).toList.length + 2 ≤ fuel)
    (hfields : fields ≠ []) :
    ∃ documents, readFields fuel ((Json.writeFields fields).toList ++ '\x7d' :: rest) =
        some (documents, rest) ∧
      fieldsWithin? depth documents = some fields := by
  have hpos : 0 < fuel := Nat.lt_of_lt_of_le (Nat.succ_pos _) hfuel
  obtain ⟨fuel, rfl⟩ := Nat.exists_eq_add_one_of_ne_zero (Nat.ne_of_gt hpos)
  cases fields with
  | nil => exact absurd rfl hfields
  | cons field fields =>
      obtain ⟨key, v⟩ := field
      by_cases hmore : fields = []
      · rw [hmore, toList_writeFields_single] at hfuel ⊢
        simp only [List.length_append, List.length_cons] at hfuel
        obtain ⟨document, hread, hvalue⟩ :=
          readValue_write depth v h.1 fuel ('\x7d' :: rest) (by simp [Ended]) (by omega)
        refine ⟨[(some key, document)], ?_, by simp [fieldsWithin?, hvalue]⟩
        rw [List.cons_append, List.append_assoc, List.cons_append, List.cons_append]
        exact readFields_last key hread
      · rw [toList_writeFields_cons key v hmore] at hfuel ⊢
        simp only [List.length_append, List.length_cons] at hfuel
        obtain ⟨document, hread, hvalue⟩ :=
          readValue_write depth v h.1 fuel
            (',' :: ((Json.writeFields fields).toList ++ '\x7d' :: rest)) (by simp [Ended])
            (by omega)
        obtain ⟨documents, hlater, hvalues⟩ :=
          readFields_write depth fields h.2 fuel rest (by omega) hmore
        refine ⟨(some key, document) :: documents, ?_, by simp [fieldsWithin?, hvalue, hvalues]⟩
        rw [List.cons_append, List.append_assoc, List.cons_append, List.cons_append,
          List.append_assoc, List.cons_append, readFields_next key hread, hlater]
        rfl

end

end Written

/-- What is written is read back. -/
theorem Json.read?_write {v : Json} (h : v.Plain Written.maxDepth) : read? v.write = some v := by
  obtain ⟨document, hread, hvalue⟩ :=
    Written.readValue_write Written.maxDepth v h (2 * v.write.toList.length + 2) []
      (by simp [Written.Ended]) (by omega)
  rw [List.append_nil] at hread
  simp [read?, Written.read?, hread, Written.skipBlanks, Written.value?, hvalue]

end TemplateModules
