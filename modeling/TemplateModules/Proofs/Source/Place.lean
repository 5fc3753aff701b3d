import Mathlib.Data.List.Induction
import TemplateModules.Proofs.Source.SortedSearch
import TemplateModules.Source.LineIndex

/-!
# Places at the ends of texts

Where a text ends follows from its characters one after another.  Bisection among the starts of the
lines finds the same place.
-/

namespace TemplateModules

open Text

/-- A line and a column, both counted from zero. -/
structure Place where
  line : Nat
  column : Nat
  deriving DecidableEq, Repr

namespace Place

/-- The place past a character. -/
def step (p : Place) (c : Char) : Place :=
  if c = '\n' then { line := p.line + 1, column := 0 } else { p with column := p.column + 1 }

/-- The place past a text that starts at a place. -/
def past (p : Place) (text : List Char) : Place :=
  text.foldl step p

/-- The place at which a text ends. -/
def after (text : List Char) : Place :=
  past { line := 0, column := 0 } text

theorem past_append (p : Place) (text more : List Char) :
    p.past (text ++ more) = (p.past text).past more :=
  List.foldl_append

theorem after_append (text more : List Char) :
    after (text ++ more) = (after text).past more :=
  past_append _ text more

theorem after_concat (text : List Char) (c : Char) :
    after (text ++ [c]) = (after text).step c :=
  after_append text [c]

/-- The place at which a text ends is as many lines down as the text has newlines, and as many
columns to the right as characters follow the last one. -/
theorem after_eq (text : List Char) :
    after text =
      { line := text.count '\n', column := (text.reverse.takeWhile (· ≠ '\n')).length } := by
  induction text using List.reverseRecOn with
  | nil => rfl
  | append_singleton text c ih =>
      rw [after_concat, ih]
      by_cases hc : c = '\n'
      · simp [step, hc]
      · simp [step, hc]

/-- Lines in front of a text move it down, and move its first line to the right. -/
theorem past_eq (p : Place) (text : List Char) :
    p.past text =
      { line := p.line + (after text).line,
        column := if (after text).line = 0 then p.column + (after text).column
          else (after text).column } := by
  induction text using List.reverseRecOn with
  | nil => rfl
  | append_singleton text c ih =>
      rw [past_append, ih, after_concat]
      by_cases hc : c = '\n'
      · simp [past, step, hc, Nat.add_assoc]
      · by_cases hline : (after text).line = 0
        · simp [past, step, hc, hline, Nat.add_assoc]
        · simp [past, step, hc, hline]

/-- A text without newlines stays on its line. -/
theorem past_of_notMem
    {text : List Char} (p : Place) (h : '\n' ∉ text) :
    p.past text = { p with column := p.column + text.length } := by
  induction text generalizing p with
  | nil => rfl
  | cons c text ih =>
      obtain ⟨hc, htext⟩ := List.ne_and_not_mem_of_not_mem_cons h
      rw [past, List.foldl_cons, ← past, ih _ htext]
      simp [step, Ne.symm hc, Nat.add_assoc, Nat.add_comm 1]

/-- A place is not further down and to the right than its text is long. -/
theorem line_add_column_le (text : List Char) :
    (after text).line + (after text).column ≤ text.length := by
  induction text using List.reverseRecOn with
  | nil => exact Nat.le_refl _
  | append_singleton text c ih =>
      rw [after_concat, List.length_append]
      by_cases hc : c = '\n'
      · simp only [step, if_pos hc, List.length_singleton]
        omega
      · simp only [step, if_neg hc, List.length_singleton]
        omega

end Place

/-! ## The starts of lines -/

theorem lineStartsFrom_append (offset : Nat) (text more : List Char) :
    lineStartsFrom offset (text ++ more) =
      lineStartsFrom offset text ++ lineStartsFrom (offset + byteSize text) more := by
  induction text generalizing offset with
  | nil => simp [lineStartsFrom]
  | cons c text ih =>
      by_cases hc : c = '\n'
      · simp [lineStartsFrom, hc, ih, Nat.add_assoc]
      · simp [lineStartsFrom, hc, ih, Nat.add_assoc]

/-- The lines that start in a text start behind its first character, if this is a newline, or
later. -/
theorem mem_lineStartsFrom_cons {offset start : Nat} {c : Char} {text : List Char} :
    start ∈ lineStartsFrom offset (c :: text) ↔
      (c = '\n' ∧ start = offset + c.utf8Size) ∨
        start ∈ lineStartsFrom (offset + c.utf8Size) text := by
  by_cases hc : c = '\n'
  · simp [lineStartsFrom, hc]
  · simp [lineStartsFrom, hc]

/-- Lines start behind the offset of their text, and not past its end. -/
theorem bounds_of_mem_lineStartsFrom
    {offset start : Nat} {text : List Char} (h : start ∈ lineStartsFrom offset text) :
    offset < start ∧ start ≤ offset + byteSize text := by
  induction text generalizing offset with
  | nil => cases h
  | cons c text ih =>
      have hpos := c.utf8Size_pos
      rw [byteSize_cons]
      rcases mem_lineStartsFrom_cons.mp h with ⟨-, rfl⟩ | hlater
      · omega
      · have hbounds := ih hlater
        omega

/-- No line starts inside of the first character of a text. -/
theorem le_of_mem_lineStartsFrom_cons
    {offset start : Nat} {c : Char} {text : List Char}
    (h : start ∈ lineStartsFrom offset (c :: text)) :
    offset + c.utf8Size ≤ start := by
  rcases mem_lineStartsFrom_cons.mp h with ⟨-, rfl⟩ | hlater
  · exact Nat.le_refl _
  · exact Nat.le_of_lt (bounds_of_mem_lineStartsFrom hlater).1

theorem pairwise_lineStartsFrom (offset : Nat) (text : List Char) :
    (lineStartsFrom offset text).Pairwise (· < ·) := by
  induction text generalizing offset with
  | nil => exact .nil
  | cons c text ih =>
      by_cases hc : c = '\n'
      · simp only [lineStartsFrom, if_pos hc]
        exact .cons (fun start h => (bounds_of_mem_lineStartsFrom h).1) (ih _)
      · simp only [lineStartsFrom, if_neg hc]
        exact ih _

theorem length_lineStartsFrom (offset : Nat) (text : List Char) :
    (lineStartsFrom offset text).length = (Place.after text).line := by
  induction text using List.reverseRecOn with
  | nil => rfl
  | append_singleton text c ih =>
      rw [lineStartsFrom_append, List.length_append, ih, Place.after_concat]
      by_cases hc : c = '\n'
      · simp [lineStartsFrom, Place.step, hc]
      · simp [lineStartsFrom, Place.step, hc]

/-- The last line of a text starts at the last offset, and is as long as the column says. -/
theorem exists_last_line (text : List Char) :
    ∃ lines line, text = lines ++ line ∧ line.length = (Place.after text).column ∧
      (0 :: lineStartsFrom 0 text)[(Place.after text).line]? = some (byteSize lines) := by
  induction text using List.reverseRecOn with
  | nil => exact ⟨[], [], rfl, rfl, rfl⟩
  | append_singleton text c ih =>
      obtain ⟨lines, line, htext, hlength, hstart⟩ := ih
      rw [Place.after_concat, lineStartsFrom_append]
      by_cases hc : c = '\n'
      · refine ⟨text ++ [c], [], by simp, by simp [Place.step, hc], ?_⟩
        rw [← length_lineStartsFrom 0 text] at hstart
        simp [Place.step, hc, lineStartsFrom, ← length_lineStartsFrom 0 text]
      · refine ⟨lines, line ++ [c], by simp [htext], by simp [Place.step, hc, hlength], ?_⟩
        simpa [Place.step, hc, lineStartsFrom] using hstart

/-- A text ends at the last boundary of characters that is not past an offset. -/
structure EndsUpTo (text rest : List Char) (offset : Nat) : Prop where
  le : byteSize text ≤ offset
  lt : ∀ c more, rest = c :: more → offset < byteSize text + c.utf8Size

theorem endsUpTo_byteSize (text rest : List Char) : EndsUpTo text rest (byteSize text) where
  le := Nat.le_refl _
  lt c _ _ := Nat.lt_add_of_pos_right c.utf8Size_pos

theorem exists_endsUpTo (source : List Char) (offset : Nat) :
    ∃ text rest, source = text ++ rest ∧ EndsUpTo text rest offset := by
  induction source generalizing offset with
  | nil => exact ⟨[], [], rfl, Nat.zero_le _, fun _ _ h => nomatch h⟩
  | cons c source ih =>
      by_cases hc : offset < c.utf8Size
      · refine ⟨[], c :: source, rfl, Nat.zero_le _, ?_⟩
        rintro _ _ ⟨⟩
        simpa using hc
      · obtain ⟨text, rest, rfl, hends⟩ := ih (offset - c.utf8Size)
        have hle := hends.le
        refine ⟨c :: text, rest, rfl, ?_, fun c' more hrest => ?_⟩
        · rw [byteSize_cons]
          omega
        · have hlt := hends.lt c' more hrest
          rw [byteSize_cons]
          omega

/-- The starts of lines split where a text ends: the lines up to its last one start in it or at its
beginning, and later ones behind the offset that it ends up to. -/
theorem EndsUpTo.splitsAt {text rest : List Char} {offset : Nat} (h : EndsUpTo text rest offset) :
    SplitsAt (LineIndex.ofSource (text ++ rest)).starts offset (Place.after text).line := by
  have hstarts : (LineIndex.ofSource (text ++ rest)).starts =
      ((0 :: lineStartsFrom 0 text) ++ lineStartsFrom (byteSize text) rest).toArray := by
    simp [LineIndex.ofSource, lineStartsFrom_append]
  rw [hstarts, ← length_lineStartsFrom 0 text]
  apply SplitsAt.of_append
  · intro start hstart
    refine Nat.le_trans ?_ h.le
    rcases List.mem_cons.mp hstart with rfl | hlater
    · exact Nat.zero_le _
    · have hbounds := bounds_of_mem_lineStartsFrom hlater
      omega
  · intro start hstart
    cases rest with
    | nil => cases hstart
    | cons c more =>
        exact Nat.lt_of_lt_of_le (h.lt c more rfl) (le_of_mem_lineStartsFrom_cons hstart)

/-! ## Bisection -/

namespace LineIndex

/-- Bisection finds the index at which the starts split. -/
theorem search_eq
    {starts : Array Nat} {offset k : Nat} (h : SplitsAt starts offset k)
    (low high : Nat) (hlow : low < high) (hhigh : high ≤ starts.size)
    (hk : low ≤ k) (hkhigh : k < high) :
    search starts offset low high hlow hhigh = k := by
  fun_induction search starts offset low high hlow hhigh with
  | case1 => omega
  | case2 low high hlow hhigh hdone middle hmiddle ih =>
      have hpast := h.lt_iff (i := middle) (by omega)
      exact ih (by omega) hkhigh
  | case3 low high hlow hhigh hdone middle hmiddle ih =>
      have hpast := h.lt_iff (i := middle) (by omega)
      exact ih hk (by omega)

/-- An offset is on the line of the place at which the text up to it ends. -/
theorem lineOf_eq {text rest : List Char} {offset : Nat} (h : EndsUpTo text rest offset) :
    (ofSource (text ++ rest)).lineOf offset = (Place.after text).line :=
  search_eq h.splitsAt _ _ _ _ (Nat.zero_le _) h.splitsAt.lt_size

/-- The offset at which a part of a source ends is on the line of that place. -/
theorem lineOf_byteSize (text rest : List Char) :
    (ofSource (text ++ rest)).lineOf (byteSize text) = (Place.after text).line :=
  lineOf_eq (endsUpTo_byteSize text rest)

/-- The offset at which a part of a source ends has the line and the column of that place. -/
theorem locate_byteSize (text rest : List Char) :
    (ofSource (text ++ rest)).locate (byteSize text) =
      ((Place.after text).line + 1, (Place.after text).column) := by
  obtain ⟨lines, line, htext, hlength, hstart⟩ := exists_last_line text
  have hget : ∀ h : (Place.after text).line < (ofSource (text ++ rest)).starts.size,
      (ofSource (text ++ rest)).starts[(Place.after text).line] = byteSize lines := by
    intro h
    have hstarts : (0 :: lineStartsFrom 0 (text ++ rest))[(Place.after text).line]? =
        some (byteSize lines) := by
      rw [lineStartsFrom_append, ← List.cons_append,
        List.getElem?_append_left (by simp [length_lineStartsFrom])]
      exact hstart
    exact (List.getElem?_eq_some_iff.mp hstarts).2
  have hsource : (ofSource (text ++ rest)).source = text ++ rest := rfl
  have hslice : slice? (text ++ rest) (byteSize lines) (byteSize text) = some line := by
    rw [htext, byteSize_append]
    exact slice?_append lines line rest
  simp only [locate, lineOf_byteSize, hget, hsource, hslice, hlength, Option.map_some,
    Option.getD_some]

end LineIndex
end TemplateModules
