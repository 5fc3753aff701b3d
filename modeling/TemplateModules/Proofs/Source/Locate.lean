import Mathlib.Data.Prod.Lex
import TemplateModules.Proofs.Source.Place
import TemplateModules.Proofs.Text.Bytes

/-!
# Lines and columns of all offsets

The line of an offset counts the newline bytes in front of it, and its column the characters behind
the last of them.  Between characters, later offsets have later places, and walking through the
source to the place of an offset leads back to the offset.  Where lines and columns are numbers of
32 bits and every step of locating can halt, no step does, whatever the offset.
-/

namespace TemplateModules

open Text

/-! ## Newline bytes -/

/-- The byte of a newline. -/
def newlineByte : UInt8 := 0x0a

/-- The number of newline bytes in front of an offset. -/
def newlinesBefore (source : List Char) (offset : Nat) : Nat :=
  ((source.flatMap String.utf8EncodeChar).take offset).count newlineByte

theorem newlineByte_notMem_of_ne {c : Char} (hc : c ≠ '\n') :
    newlineByte ∉ String.utf8EncodeChar c :=
  mt (mem_utf8EncodeChar_iff (d := '\n') (by decide)).mp hc

/-- The newline bytes in front of a text are those of its first character and those behind. -/
theorem newlinesBefore_cons (c : Char) (source : List Char) (offset : Nat) :
    newlinesBefore (c :: source) offset =
      (if c = '\n' ∧ 0 < offset then 1 else 0) + newlinesBefore source (offset - c.utf8Size) := by
  unfold newlinesBefore
  rw [List.flatMap_cons, List.take_append, List.count_append, String.length_utf8EncodeChar]
  congr 1
  by_cases hc : c = '\n'
  · subst hc
    cases offset with
    | zero => rfl
    | succ n =>
        have hone : String.utf8EncodeChar '\n' = [newlineByte] := by decide
        simp [hone]
  · have hnone : newlineByte ∉ (String.utf8EncodeChar c).take offset :=
      fun h => newlineByte_notMem_of_ne hc (List.mem_of_mem_take h)
    rw [List.count_eq_zero.mpr hnone]
    simp [hc]

/-- The newline bytes in front of an offset are the newlines of the text that ends up to it. -/
theorem EndsUpTo.newlinesBefore_eq
    {text rest : List Char} {offset : Nat} (h : EndsUpTo text rest offset) :
    newlinesBefore (text ++ rest) offset = (Place.after text).line := by
  rw [Place.after_eq]
  show newlinesBefore (text ++ rest) offset = text.count '\n'
  induction text generalizing offset with
  | nil =>
      cases rest with
      | nil => simp [newlinesBefore]
      | cons c more =>
          -- The offset stops short of the end of this character, so no byte in front is a newline.
          have hlt := h.lt c more rfl
          rw [byteSize_nil, Nat.zero_add] at hlt
          have hfirst : ¬(c = '\n' ∧ 0 < offset) := by
            rintro ⟨rfl, hpos⟩
            have hone : Char.utf8Size '\n' = 1 := rfl
            omega
          rw [List.nil_append, newlinesBefore_cons, if_neg hfirst,
            Nat.sub_eq_zero_of_le (Nat.le_of_lt hlt)]
          simp [newlinesBefore]
  | cons c text ih =>
      have hle := h.le
      have hpos := c.utf8Size_pos
      rw [byteSize_cons] at hle
      have hrest : EndsUpTo text rest (offset - c.utf8Size) := by
        refine ⟨by omega, fun c' more hmore => ?_⟩
        have hlt := h.lt c' more hmore
        rw [byteSize_cons] at hlt
        omega
      rw [List.cons_append, newlinesBefore_cons, ih hrest]
      by_cases hc : c = '\n'
      · simp [hc, show 0 < offset by omega, Nat.add_comm]
      · simp [hc]

/-! ## Places in order -/

namespace Place

/-- A place as the number of its line and a column, compared by the line first. -/
def toPair (p : Place) : Nat ×ₗ Nat :=
  toLex (p.line + 1, p.column)

theorem lt_step (p : Place) (c : Char) : p.toPair < (p.step c).toPair := by
  unfold toPair
  rw [Prod.Lex.toLex_lt_toLex]
  by_cases hc : c = '\n'
  · simp [step, hc]
  · simp [step, hc]

theorem le_past (p : Place) (text : List Char) : p.toPair ≤ (p.past text).toPair := by
  induction text generalizing p with
  | nil => exact le_refl _
  | cons c text ih => exact (p.lt_step c).le.trans (ih (p.step c))

/-- Every character moves a place on. -/
theorem lt_past (p : Place) {text : List Char} (h : text ≠ []) :
    p.toPair < (p.past text).toPair := by
  obtain ⟨c, text, rfl⟩ := List.exists_cons_of_ne_nil h
  exact (p.lt_step c).trans_le (le_past (p.step c) text)

/-- Walks through a text from one place to another, and counts the bytes on the way. -/
def bytesTo (here there : Place) : List Char → Option Nat
  | [] => if here = there then some 0 else none
  | c :: cs =>
      if here = there then some 0
      else (bytesTo (here.step c) there cs).map (c.utf8Size + ·)

/-- A text that leads back to its place is empty. -/
theorem past_eq_self_iff {p : Place} {text : List Char} : p.past text = p ↔ text = [] := by
  constructor
  · intro heq
    by_contra hne
    have hlt := p.lt_past hne
    rw [heq] at hlt
    exact lt_irrefl _ hlt
  · rintro rfl
    rfl

/-- The walk counts the bytes of the text in front that leads to the place. -/
theorem bytesTo_eq_some_iff {here there : Place} {source : List Char} {n : Nat} :
    bytesTo here there source = some n ↔
      ∃ text rest, source = text ++ rest ∧ byteSize text = n ∧ here.past text = there := by
  induction source generalizing here n with
  | nil =>
      simp only [bytesTo, Option.ite_none_right_eq_some, Option.some.injEq, List.nil_eq_append_iff]
      constructor
      · rintro ⟨rfl, rfl⟩
        exact ⟨[], [], ⟨rfl, rfl⟩, rfl, rfl⟩
      · rintro ⟨_, _, ⟨rfl, rfl⟩, rfl, rfl⟩
        exact ⟨rfl, rfl⟩
  | cons c source ih =>
      by_cases hhere : here = there
      · subst hhere
        simp only [bytesTo, if_pos, Option.some.injEq, past_eq_self_iff]
        constructor
        · rintro rfl
          exact ⟨[], c :: source, rfl, rfl, rfl⟩
        · rintro ⟨_, _, -, rfl, rfl⟩
          rfl
      · simp only [bytesTo, if_neg hhere, Option.map_eq_some_iff, ih]
        constructor
        · rintro ⟨_, ⟨text, rest, rfl, rfl, hpast⟩, rfl⟩
          exact ⟨c :: text, rest, rfl, rfl, hpast⟩
        · rintro ⟨text, rest, hsource, rfl, hpast⟩
          cases text with
          | nil => exact absurd hpast hhere
          | cons c' text =>
              obtain ⟨rfl, rfl⟩ := List.cons.inj hsource
              exact ⟨byteSize text, ⟨text, rest, rfl, rfl, hpast⟩, rfl⟩

/-- The offset at which a source comes to a place. -/
def offset? (p : Place) (source : List Char) : Option Nat :=
  bytesTo { line := 0, column := 0 } p source

theorem offset?_eq_some_iff {p : Place} {source : List Char} {n : Nat} :
    p.offset? source = some n ↔
      ∃ text rest, source = text ++ rest ∧ byteSize text = n ∧ after text = p :=
  bytesTo_eq_some_iff

end Place

/-! ## All offsets -/

/-- The offsets between characters, with both ends of the source. -/
def boundaries (source : List Char) : Set Nat :=
  {offset | ∃ text rest, source = text ++ rest ∧ byteSize text = offset}

/-- From an offset between characters to a later one there is a text. -/
theorem exists_of_lt_boundaries
    {source : List Char} {a b : Nat} (ha : a ∈ boundaries source) (hb : b ∈ boundaries source)
    (hlt : a < b) :
    ∃ text more rest, source = text ++ (more ++ rest) ∧ more ≠ [] ∧
      byteSize text = a ∧ byteSize (text ++ more) = b := by
  obtain ⟨text, rest, rfl, rfl⟩ := ha
  obtain ⟨text', rest', hsource, rfl⟩ := hb
  rcases List.append_eq_append_iff.mp hsource with ⟨more, rfl, rfl⟩ | ⟨more, rfl, rfl⟩
  · refine ⟨text, more, rest', rfl, ?_, rfl, rfl⟩
    rintro rfl
    rw [List.append_nil] at hlt
    exact absurd hlt (lt_irrefl _)
  · rw [byteSize_append] at hlt
    omega

/-- A slice ends between characters. -/
theorem mem_boundaries_of_slice?
    {source piece : List Char} {start stop : Nat} (h : slice? source start stop = some piece) :
    stop ∈ boundaries source := by
  rw [slice?] at h
  split at h
  · next hle =>
      obtain ⟨after, hdrop, htake⟩ := Option.bind_eq_some_iff.mp h
      obtain ⟨front, rfl, hfront⟩ := exists_of_dropBytes? hdrop
      obtain ⟨rest, rfl, hpiece⟩ := exists_of_takeBytes? htake
      refine ⟨front ++ piece, rest, (List.append_assoc front piece rest).symm, ?_⟩
      rw [byteSize_append]
      omega
  · cases h

namespace LineIndex

variable {source : List Char}

/-- The line of an offset, whether it is between characters or not. -/
theorem lineOf_eq_newlinesBefore (source : List Char) (offset : Nat) :
    (ofSource source).lineOf offset = newlinesBefore source offset := by
  obtain ⟨text, rest, rfl, hends⟩ := exists_endsUpTo source offset
  rw [lineOf_eq hends, hends.newlinesBefore_eq]

theorem locate_fst (source : List Char) (offset : Nat) :
    ((ofSource source).locate offset).1 = 1 + newlinesBefore source offset := by
  rw [← lineOf_eq_newlinesBefore, Nat.add_comm]
  rfl

/-- The column of an offset between characters counts back to the newline in front of it. -/
theorem locate_snd_byteSize (text rest : List Char) :
    ((ofSource (text ++ rest)).locate (byteSize text)).2 =
      (text.reverse.takeWhile (· ≠ '\n')).length := by
  rw [locate_byteSize, Place.after_eq]

/-- An offset inside of a character or past the end has no column of its own. -/
theorem locate_snd_of_notMem {offset : Nat} (h : offset ∉ boundaries source) :
    ((ofSource source).locate offset).2 = 0 := by
  have hline := (ofSource source).lineOf_lt offset
  have hslice : slice? source (ofSource source).starts[(ofSource source).lineOf offset] offset =
      none := by
    by_contra hsome
    obtain ⟨piece, hpiece⟩ := Option.ne_none_iff_exists'.mp hsome
    exact h (mem_boundaries_of_slice? hpiece)
  exact congrArg (fun piece => (piece.map List.length).getD 0) hslice

/-- Between characters, later offsets have later places. -/
theorem strictMonoOn_locate (source : List Char) :
    StrictMonoOn (fun offset => toLex ((ofSource source).locate offset)) (boundaries source) := by
  intro a ha b hb hlt
  obtain ⟨text, more, rest, rfl, hmore, rfl, rfl⟩ := exists_of_lt_boundaries ha hb hlt
  have hfirst := locate_byteSize text (more ++ rest)
  have hsecond := locate_byteSize (text ++ more) rest
  rw [List.append_assoc] at hsecond
  have hplaces := (Place.after text).lt_past hmore
  rw [← Place.after_append] at hplaces
  show toLex (LineIndex.locate _ _) < toLex (LineIndex.locate _ _)
  rw [hfirst, hsecond]
  exact hplaces

/-- A walk through the source comes to a place at the only offset that has it. -/
theorem offset?_eq_some_iff_locate {offset : Nat} {p : Place} :
    p.offset? source = some offset ↔
      offset ∈ boundaries source ∧ (ofSource source).locate offset = (p.line + 1, p.column) := by
  rw [Place.offset?_eq_some_iff]
  constructor
  · rintro ⟨text, rest, rfl, rfl, rfl⟩
    exact ⟨⟨text, rest, rfl, rfl⟩, locate_byteSize text rest⟩
  · rintro ⟨⟨text, rest, rfl, rfl⟩, hlocate⟩
    rw [locate_byteSize, Prod.mk.injEq, Nat.add_right_cancel_iff] at hlocate
    obtain ⟨hline, hcolumn⟩ := hlocate
    refine ⟨text, rest, rfl, rfl, ?_⟩
    show Place.mk (Place.after text).line (Place.after text).column = p
    rw [hline, hcolumn]

/-- Lines and columns stay within the numbers of lines and characters of the source. -/
theorem locate_le (source : List Char) (offset : Nat) :
    ((ofSource source).locate offset).1 ≤ source.count '\n' + 1 ∧
      ((ofSource source).locate offset).2 ≤ source.length := by
  constructor
  · obtain ⟨text, rest, rfl, hends⟩ := exists_endsUpTo source offset
    rw [locate_fst, hends.newlinesBefore_eq, Place.after_eq, List.count_append]
    dsimp only
    omega
  · by_cases hmem : offset ∈ boundaries source
    · obtain ⟨text, rest, rfl, rfl⟩ := hmem
      have hle := Place.line_add_column_le text
      rw [locate_byteSize, List.length_append]
      dsimp only
      omega
    · rw [locate_snd_of_notMem hmem]
      exact Nat.zero_le _

/-! ## Locating in machine integers -/

/-- The next number of a machine, unless there is no greater one. -/
def next? (n : UInt32) : Option UInt32 :=
  if n + 1 = 0 then none else some (n + 1)

/-- Locating by a search that can halt.  It halts where the search reads outside of the starts,
where there is no step back from the answer, where no line starts at the index it comes to, and
where the line has no number. -/
def locate? (index : LineIndex) (offset : Nat) : Option (UInt32 × UInt32) := do
  let answer ← Sought.search? index.starts offset
  let line ← answer.stepBack?
  let start ← index.starts[line]?
  let column := ((slice? index.source start offset).map List.length).getD 0
  (next? (UInt32.ofNat line)).map (·, UInt32.ofNat column)

theorem splitsAt_lineOf (source : List Char) (offset : Nat) :
    SplitsAt (ofSource source).starts offset ((ofSource source).lineOf offset) := by
  obtain ⟨text, rest, rfl, hends⟩ := exists_endsUpTo source offset
  rw [lineOf_eq hends]
  exact hends.splitsAt

theorem pairwise_starts (source : List Char) :
    (ofSource source).starts.toList.Pairwise (· < ·) :=
  .cons (fun _ h => (bounds_of_mem_lineStartsFrom h).1) (pairwise_lineStartsFrom 0 source)

/-- Locating halts only where a line has no number. -/
theorem locate?_eq (source : List Char) (offset : Nat) :
    (ofSource source).locate? offset =
      (next? (UInt32.ofNat ((ofSource source).lineOf offset))).map
        (·, UInt32.ofNat ((ofSource source).locate offset).2) := by
  have hsplits := splitsAt_lineOf source offset
  have hstart := Array.getElem?_eq_getElem hsplits.lt_size
  simp only [locate?, hsplits.search?_eq, Sought.stepBack?_answerAt, hstart, Option.bind_eq_bind,
    Option.bind_some]
  rfl

theorem next?_ofNat {n : Nat} (h : n + 1 < UInt32.size) :
    next? (UInt32.ofNat n) = some (UInt32.ofNat (n + 1)) := by
  have hnext : UInt32.ofNat n + 1 = UInt32.ofNat (n + 1) := (UInt32.ofNat_add n 1).symm
  have hroom : UInt32.ofNat (n + 1) ≠ 0 := by
    rw [Ne, ← UInt32.toNat_inj, UInt32.toNat_ofNat_of_lt' h]
    exact Nat.succ_ne_zero n
  rw [next?, hnext, if_neg hroom]

/-- No step of locating halts in a source that is small enough for its numbers. -/
theorem exists_locate?_eq
    {source : List Char} (hlines : source.count '\n' + 1 < UInt32.size)
    (hlength : source.length < UInt32.size) (offset : Nat) :
    ∃ line column, (ofSource source).locate? offset = some (line, column) ∧
      (ofSource source).locate offset = (line.toNat, column.toNat) := by
  obtain ⟨hline, hcolumn⟩ := locate_le source offset
  have hnumber : ((ofSource source).locate offset).1 = (ofSource source).lineOf offset + 1 := rfl
  refine ⟨UInt32.ofNat ((ofSource source).locate offset).1,
    UInt32.ofNat ((ofSource source).locate offset).2, ?_, ?_⟩
  · rw [locate?_eq, next?_ofNat (by omega)]
    rfl
  · rw [UInt32.toNat_ofNat_of_lt' (by omega), UInt32.toNat_ofNat_of_lt' (by omega)]

/--
In every source with fewer than `2 ^ 32` lines and characters, locating any offset, also one inside
of a character or past the end, comes to a line and a column without a halt, and its search gives
the only right answer.  The line is one more than the number of newline bytes in front of the
offset; the column of an offset between characters is the number of characters back to the last
newline or the start.  Between characters, later offsets have later places, compared by the line
first, and a place leads back to the only offset that has it.
-/
theorem offsets_located (source : List Char)
    (hlines : source.count '\n' + 1 < UInt32.size) (hlength : source.length < UInt32.size) :
    (∀ offset, ∃ line column, (ofSource source).locate? offset = some (line, column) ∧
      (ofSource source).locate offset = (line.toNat, column.toNat)) ∧
    (∀ offset answer,
      Sought.search? (ofSource source).starts offset = some answer ↔
        answer.Right (ofSource source).starts offset) ∧
    (∀ offset, ((ofSource source).locate offset).1 = 1 + newlinesBefore source offset) ∧
    (∀ text rest, source = text ++ rest →
      ((ofSource source).locate (byteSize text)).2 =
        (text.reverse.takeWhile (· ≠ '\n')).length) ∧
    StrictMonoOn (fun offset => toLex ((ofSource source).locate offset)) (boundaries source) ∧
    (∀ offset (p : Place), p.offset? source = some offset ↔
      offset ∈ boundaries source ∧
        (ofSource source).locate offset = (p.line + 1, p.column)) := by
  refine ⟨exists_locate?_eq hlines hlength, fun offset answer => ?_, locate_fst source, ?_,
    strictMonoOn_locate source, fun offset p => offset?_eq_some_iff_locate⟩
  · exact (splitsAt_lineOf source offset).search?_eq_some_iff (pairwise_starts source)
  · rintro text rest rfl
    exact locate_snd_byteSize text rest

/-- Three lines of characters of one to four bytes. -/
def wideLines : List Char :=
  "é\n漢字\n😀x".toList

/-- The offset 12 is inside of a character of the last line, and 14 behind it. -/
theorem wideLines_located :
    wideLines.count '\n' + 1 < UInt32.size ∧ wideLines.length < UInt32.size ∧
      (∃ line column, (ofSource wideLines).locate? 12 = some (line, column)) ∧
      ((ofSource wideLines).locate 12).1 = 3 ∧
      ((ofSource wideLines).locate 14).2 = 1 ∧
      Place.offset? { line := 2, column := 1 } wideLines = some 14 := by
  have hlines : wideLines.count '\n' + 1 < UInt32.size := by decide
  have hlength : wideLines.length < UInt32.size := by decide
  obtain ⟨hfound, -, hline, hcolumn, -, hback⟩ := offsets_located wideLines hlines hlength
  obtain ⟨line, column, hlocate, -⟩ := hfound 12
  have hthird : newlinesBefore wideLines 12 = 2 := by decide
  have hbehind : ((ofSource wideLines).locate 14).2 = 1 :=
    hcolumn "é\n漢字\n😀".toList ['x'] rfl
  have hplace : (ofSource wideLines).locate 14 = (3, 1) := by
    refine Prod.ext ?_ hbehind
    rw [hline]
    decide
  refine ⟨hlines, hlength, ⟨line, column, hlocate⟩, ?_, hbehind, ?_⟩
  · rw [hline, hthird]
  · exact (hback 14 _).mpr ⟨⟨"é\n漢字\n😀".toList, ['x'], rfl, rfl⟩, hplace⟩

end LineIndex

end TemplateModules
