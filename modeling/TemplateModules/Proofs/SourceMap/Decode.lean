import Mathlib.Tactic.Common
import TemplateModules.Proofs.Source.Place
import TemplateModules.Proofs.SourceMap.Vlq

/-!
# Reading mappings

The mappings of a source map are read segment by segment.  Reading undoes writing for mappings whose
lines do not go back and whose positions are below `2 ^ 30`.
-/

namespace TemplateModules
namespace SourceMap

open Text

/-! ## Reading -/

/-- Where a segment comes from: the number of a source, a place in it, and the number of a name. -/
structure Origin where
  source : Nat
  place : Place
  name : Option Nat
  deriving DecidableEq, Repr

/-- A place in the generated text, and where it comes from. -/
structure Segment where
  generated : Place
  origin : Option Origin
  deriving DecidableEq, Repr

/-- What the fields of a segment are relative to. -/
structure Cursor where
  generated : Place
  source : Nat
  place : Place
  name : Nat

namespace Cursor

/-- What the first segment is relative to. -/
def start : Cursor :=
  { generated := { line := 0, column := 0 }, source := 0, place := { line := 0, column := 0 },
    name := 0 }

/-- The next line of the generated text. -/
def nextLine (cursor : Cursor) : Cursor :=
  { cursor with generated := { line := cursor.generated.line + 1, column := 0 } }

/-- The number of a name, if there is a field for it. -/
def readName? (cursor : Cursor) : List Int → Option (Option Nat)
  | [] => some none
  | [name] => (cursor.name + name).toNat?.map some
  | _ => none

/-- The segment that one, four or five fields stand for. -/
def read? (cursor : Cursor) : List Int → Option (Segment × Cursor)
  | [column] => do
      let column ← (cursor.generated.column + column).toNat?
      let generated : Place := { cursor.generated with column }
      return ({ generated, origin := none }, { cursor with generated })
  | column :: source :: line :: sourceColumn :: names => do
      let column ← (cursor.generated.column + column).toNat?
      let source ← (cursor.source + source).toNat?
      let line ← (cursor.place.line + line).toNat?
      let sourceColumn ← (cursor.place.column + sourceColumn).toNat?
      let name ← cursor.readName? names
      let generated : Place := { cursor.generated with column }
      let place : Place := { line, column := sourceColumn }
      return ({ generated, origin := some { source, place, name } },
        { generated, source, place, name := name.getD cursor.name })
  | _ => none

end Cursor

/-- The segments of mappings. -/
def decode? (cursor : Cursor) : List Char → Option (List Segment)
  | [] => some []
  | c :: cs =>
      if hsemicolon : c = ';' then decode? cursor.nextLine cs
      else if hcomma : c = ',' then decode? cursor cs
      else
        match hfields : fields? (c :: cs) with
        | none => none
        | some (values, rest) =>
            have : rest.length < (c :: cs).length :=
              length_lt_of_fields? hfields (by simp [hsemicolon, hcomma])
            match cursor.read? values with
            | none => none
            | some (segment, cursor) => (decode? cursor rest).map (segment :: ·)
termination_by cs => cs.length
decreasing_by
  · exact Nat.lt_succ_self _
  · exact Nat.lt_succ_self _
  · exact this

/-! ## Reading what is written -/

/-- A mapping as a segment of the first source. -/
def Mapping.segment (m : Mapping) : Segment where
  generated := { line := m.generatedLine, column := m.generatedColumn }
  origin := some
    { source := 0, place := { line := m.sourceLine, column := m.sourceColumn }, name := m.name }

/-- What a segment is written relative to, on the line of the mapping. -/
def Previous.cursor (p : Previous) : Cursor where
  generated := { line := p.generatedLine, column := p.generatedColumn }
  source := 0
  place := { line := p.sourceLine, column := p.sourceColumn }
  name := p.name

/-- The positions of a mapping that are written as numbers are below the limit. -/
structure Mapping.Small (m : Mapping) : Prop where
  generatedColumn : m.generatedColumn < positionLimit
  sourceLine : m.sourceLine < positionLimit
  sourceColumn : m.sourceColumn < positionLimit
  name : ∀ i ∈ m.name, i < positionLimit

/-- What a segment is written relative to is below the limit. -/
structure Previous.Small (p : Previous) : Prop where
  generatedColumn : p.generatedColumn < positionLimit
  sourceLine : p.sourceLine < positionLimit
  sourceColumn : p.sourceColumn < positionLimit
  name : p.name < positionLimit

def Mapping.fields (p : Previous) (m : Mapping) : List Int :=
  (m.generatedColumn - p.generatedColumn : Int) :: 0 :: (m.sourceLine - p.sourceLine : Int) ::
    (m.sourceColumn - p.sourceColumn : Int) :: (m.name.map fun (i : Nat) => (i : Int) - p.name).toList

/-- What the next mapping is written relative to. -/
def Mapping.next (p : Previous) (m : Mapping) : Previous where
  generatedLine := m.generatedLine
  generatedColumn := m.generatedColumn
  sourceLine := m.sourceLine
  sourceColumn := m.sourceColumn
  name := m.name.getD p.name

section

variable {p : Previous} {m : Mapping}

theorem vlq?_delta {now before : Nat} (hnow : now < positionLimit) (hbefore : before < positionLimit) :
    vlq? (delta now before) = some (signedDigits (now - before)) := by
  rw [delta_eq]
  exact vlq?_ofInt (by omega)

/-- The fields of small mappings are written. -/
theorem segment?_eq (hp : p.Small) (hm : m.Small) :
    segment? p m = some ((m.fields p).flatMap signedDigits) := by
  have hcolumn := vlq?_delta hm.generatedColumn hp.generatedColumn
  have hsource : vlq? 0 = some (signedDigits 0) := vlq?_ofInt (v := 0) (by decide)
  have hline := vlq?_delta hm.sourceLine hp.sourceLine
  have hsourceColumn := vlq?_delta hm.sourceColumn hp.sourceColumn
  cases hname : m.name with
  | none => simp [segment?, Mapping.fields, hcolumn, hsource, hline, hsourceColumn, hname]
  | some i =>
      have hi := vlq?_delta (hm.name i hname) hp.name
      simp [segment?, Mapping.fields, hcolumn, hsource, hline, hsourceColumn, hname, hi]

theorem toNat?_add_sub (now before : Nat) :
    ((before : Int) + (now - before)).toNat? = some now := by
  rw [show (before : Int) + (now - before) = now by omega]
  rfl

/-- The fields of a mapping on the line that has been reached are read as its segment. -/
theorem read?_fields (hline : p.generatedLine = m.generatedLine) :
    p.cursor.read? (m.fields p) = some (m.segment, (m.next p).cursor) := by
  have hzero : ((0 : Nat) + 0 : Int).toNat? = some 0 := rfl
  cases hname : m.name with
  | none =>
      simp only [Mapping.fields, Mapping.segment, Mapping.next, Previous.cursor, hname, hline,
        Option.map_none, Option.toList_none, Cursor.read?, Cursor.readName?, toNat?_add_sub, hzero,
        Option.bind_eq_bind, Option.bind_some]
      rfl
  | some i =>
      simp only [Mapping.fields, Mapping.segment, Mapping.next, Previous.cursor, hname, hline,
        Option.map_some, Option.toList_some, Cursor.read?, Cursor.readName?, toNat?_add_sub, hzero,
        Option.bind_eq_bind, Option.bind_some]
      rfl

/-! ## Whole lists of mappings -/

/-- Some lines further down. -/
def Cursor.down (cursor : Cursor) (lines : Nat) : Cursor :=
  if lines = 0 then cursor
  else { cursor with generated := { line := cursor.generated.line + lines, column := 0 } }

theorem down_succ (cursor : Cursor) (lines : Nat) :
    cursor.down (lines + 1) = cursor.nextLine.down lines := by
  by_cases hlines : lines = 0
  · simp [Cursor.down, Cursor.nextLine, hlines]
  · simp [Cursor.down, Cursor.nextLine, hlines, Nat.add_assoc, Nat.add_comm 1]

/-- Semicolons lead to later lines. -/
theorem decode?_semicolons (cursor : Cursor) (lines : Nat) (rest : List Char) :
    decode? cursor (List.replicate lines ';' ++ rest) = decode? (cursor.down lines) rest := by
  induction lines generalizing cursor with
  | zero => rfl
  | succ lines ih =>
      rw [List.replicate_succ, List.cons_append, decode?, dif_pos rfl, ih, down_succ]

theorem decode?_comma (cursor : Cursor) (rest : List Char) :
    decode? cursor (',' :: rest) = decode? cursor rest := by
  rw [decode?, dif_neg (by decide), dif_pos rfl]

/-- Everything that is no separator is the start of a segment. -/
theorem decode?_segment
    (cursor : Cursor) {c : Char} (cs : List Char) (hsemicolon : c ≠ ';') (hcomma : c ≠ ',') :
    decode? cursor (c :: cs) =
      (fields? (c :: cs)).bind fun (values, rest) =>
        (cursor.read? values).bind fun (segment, next) =>
          (decode? next rest).map (segment :: ·) := by
  rw [decode?, dif_neg hsemicolon, dif_neg hcomma]
  split
  · next hfields => simp [hfields]
  · next values rest hfields =>
      simp only [hfields, Option.bind_some]
      cases cursor.read? values <;> rfl

/-- The fields of a segment are read up to the separator. -/
theorem decode?_fields
    {cursor next : Cursor} {v : Int} {values : List Int} {rest : List Char} {segment : Segment}
    (hread : cursor.read? (v :: values) = some (segment, next)) (hrest : AtSeparator rest) :
    decode? cursor ((v :: values).flatMap signedDigits ++ rest) =
      (decode? next rest).map (segment :: ·) := by
  obtain ⟨digit, hdigit, digits, hdigits⟩ := exists_vlqDigits_eq (zigzag v)
  have hcomma : base64Digit digit ≠ ',' := base64Digit_ne hdigit (by decide)
  have hsemicolon : base64Digit digit ≠ ';' := base64Digit_ne hdigit (by decide)
  have hfields := fields?_signedDigits (v :: values) hrest
  rw [List.flatMap_cons, signedDigits, hdigits, List.cons_append, List.cons_append] at hfields ⊢
  rw [decode?_segment cursor _ hsemicolon hcomma, hfields, Option.bind_some]
  simp only [hread, Option.bind_some]

/-- What a mapping is written relative to, after the separator in front of it. -/
def Previous.movedTo (p : Previous) (line : Nat) : Previous :=
  { p with
    generatedLine := line
    generatedColumn := if line = p.generatedLine then p.generatedColumn else 0 }

theorem movedTo_cursor {line : Nat} (hline : p.generatedLine ≤ line) :
    (p.movedTo line).cursor = p.cursor.down (line - p.generatedLine) := by
  by_cases hsame : line = p.generatedLine
  · simp [Previous.movedTo, Previous.cursor, Cursor.down, hsame]
  · have hpos : line - p.generatedLine ≠ 0 := by
      omega
    have hadd : p.generatedLine + (line - p.generatedLine) = line := by
      omega
    simp [Previous.movedTo, Previous.cursor, Cursor.down, hsame, hpos, hadd]

theorem Mapping.Small.next (hp : p.Small) (hm : m.Small) : (m.next p).Small where
  generatedColumn := hm.generatedColumn
  sourceLine := hm.sourceLine
  sourceColumn := hm.sourceColumn
  name := by
    cases hname : m.name with
    | none => simpa [Mapping.next, hname] using hp.name
    | some i => simpa [Mapping.next, hname] using hm.name i hname

theorem Previous.Small.movedTo (hp : p.Small) (line : Nat) : (p.movedTo line).Small where
  generatedColumn := by
    by_cases hsame : line = p.generatedLine
    · simpa [Previous.movedTo, hsame] using hp.generatedColumn
    · rw [Previous.movedTo, if_neg hsame]
      exact Nat.zero_lt_of_lt hp.generatedColumn
  sourceLine := hp.sourceLine
  sourceColumn := hp.sourceColumn
  name := hp.name

/-- What stands between two mappings. -/
def separator (written : Bool) (lines : Nat) : List Char :=
  if lines = 0 then (if written then [','] else []) else List.replicate lines ';'

theorem decode?_separator (cursor : Cursor) (written : Bool) (lines : Nat) (rest : List Char) :
    decode? cursor (separator written lines ++ rest) = decode? (cursor.down lines) rest := by
  by_cases hlines : lines = 0
  · cases written
    · simp [separator, Cursor.down, hlines]
    · simp [separator, Cursor.down, hlines, decode?_comma]
  · rw [separator, if_neg hlines, decode?_semicolons]

theorem encode?_cons
    {written : Bool} {ms : List Mapping}
    (hline : p.generatedLine ≤ m.generatedLine) :
    encode? written p (m :: ms) =
      (segment? (p.movedTo m.generatedLine) m).bind fun segment =>
        (encode? true (m.next p) ms).map fun rest =>
          separator written (m.generatedLine - p.generatedLine) ++ segment ++ rest := by
  have hnext : max p.generatedLine m.generatedLine = m.generatedLine := Nat.max_eq_right hline
  by_cases hsame : m.generatedLine = p.generatedLine
  · have hmoved : p.movedTo m.generatedLine = p := by
      simp [Previous.movedTo, hsame]
    have hlines : m.generatedLine - p.generatedLine = 0 := by
      omega
    simp only [encode?, separator, hmoved, hlines, hnext, if_true, Mapping.next,
      Option.bind_eq_bind, Option.map_eq_bind]
    rfl
  · have hlines : m.generatedLine - p.generatedLine ≠ 0 := by
      omega
    have hsegment : segment? { p with generatedColumn := 0 } m =
        segment? (p.movedTo m.generatedLine) m := by
      simp [segment?, Previous.movedTo, hsame]
    simp only [encode?, separator, hlines, hnext, hsegment, if_false, Mapping.next,
      Option.bind_eq_bind, Option.map_eq_bind]
    rfl

/-- Between two mappings there is a separator. -/
theorem atSeparator_separator (lines : Nat) (rest : List Char) :
    AtSeparator (separator true lines ++ rest) := by
  intro c hc
  cases lines with
  | zero => exact Or.inl (Option.some.inj hc).symm
  | succ lines => exact Or.inr (Option.some.inj hc).symm

/-- The lines of mappings do not go back, from a line on. -/
def Ascending : Nat → List Mapping → Prop
  | _, [] => True
  | line, m :: ms => line ≤ m.generatedLine ∧ Ascending m.generatedLine ms

/-- Small mappings in the order of their lines are written, and are read back as their segments. -/
theorem exists_encode?
    {ms : List Mapping} (hp : p.Small) (hms : ∀ m ∈ ms, m.Small)
    (hascending : Ascending p.generatedLine ms) (written : Bool) :
    ∃ text, encode? written p ms = some text ∧
      (written = true → AtSeparator text) ∧
      decode? p.cursor text = some (ms.map Mapping.segment) := by
  induction ms generalizing p written with
  | nil =>
      refine ⟨[], rfl, ?_, ?_⟩
      · intro _ c hc
        cases hc
      · rw [decode?]
        rfl
  | cons m ms ih =>
      obtain ⟨hline, hlater⟩ := hascending
      have hm := hms m List.mem_cons_self
      have hmoved := hp.movedTo m.generatedLine
      obtain ⟨rest, hrest, hseparator, hdecode⟩ :=
        ih (hm.next hp) (fun m' hm' => hms m' (List.mem_cons_of_mem m hm')) hlater true
      refine ⟨separator written (m.generatedLine - p.generatedLine) ++
        (m.fields (p.movedTo m.generatedLine)).flatMap signedDigits ++ rest, ?_, ?_, ?_⟩
      · rw [encode?_cons hline, segment?_eq hmoved hm, hrest]
        rfl
      · intro hwritten
        rw [hwritten, List.append_assoc]
        exact atSeparator_separator _ _
      · have hread := read?_fields (p := p.movedTo m.generatedLine) (m := m) rfl
        rw [List.append_assoc, decode?_separator, ← movedTo_cursor hline,
          Mapping.fields, decode?_fields hread (hseparator rfl)]
        exact congrArg (Option.map (m.segment :: ·)) hdecode

end

/-! ## Mappings further down -/

/-- A segment some lines further down in the generated text. -/
def Segment.lowered (lines : Nat) (segment : Segment) : Segment :=
  { segment with
    generated := { segment.generated with line := segment.generated.line + lines } }

/-- A cursor some lines further down in the generated text. -/
def Cursor.lowered (lines : Nat) (cursor : Cursor) : Cursor :=
  { cursor with
    generated := { cursor.generated with line := cursor.generated.line + lines } }

theorem readName?_lowered (lines : Nat) (cursor : Cursor) (values : List Int) :
    (cursor.lowered lines).readName? values = cursor.readName? values := rfl

theorem read?_lowered (lines : Nat) (cursor : Cursor) (values : List Int) :
    (cursor.lowered lines).read? values =
      (cursor.read? values).map fun (segment, next) =>
        (segment.lowered lines, next.lowered lines) := by
  unfold Cursor.read?
  split
  · simp only [Option.bind_eq_bind, Option.map_bind, Function.comp_def, Option.pure_def,
      Option.map_some]
    rfl
  · simp only [Option.bind_eq_bind, Option.map_bind, Function.comp_def, Option.pure_def,
      Option.map_some, readName?_lowered]
    rfl
  · rfl

/-- Segments are read further down if the cursor is. -/
theorem decode?_lowered (lines : Nat) (cursor : Cursor) (text : List Char) :
    decode? (cursor.lowered lines) text =
      (decode? cursor text).map (List.map (Segment.lowered lines)) := by
  fun_induction decode? cursor text with
  | case1 => rw [decode?]; rfl
  | case2 cursor cs ih =>
      rw [decode?, dif_pos rfl, ← ih]
      congr 1
      simp [Cursor.lowered, Cursor.nextLine, Nat.add_right_comm]
  | case3 cursor cs _ ih => rw [decode?_comma, ih]
  | case4 cursor c cs hsemicolon hcomma hfields =>
      rw [decode?_segment _ cs hsemicolon hcomma, hfields]
      rfl
  | case5 cursor c cs hsemicolon hcomma values rest hfields _ hread =>
      rw [decode?_segment _ cs hsemicolon hcomma, hfields]
      simp [read?_lowered, hread]
  | case6 cursor c cs hsemicolon hcomma values rest hfields _ segment next hread ih =>
      rw [decode?_segment _ cs hsemicolon hcomma, hfields]
      simp [read?_lowered, hread, ih, Function.comp_def]

/-- Semicolons in front of mappings move their segments down. -/
theorem decode?_shifted (lines : Nat) (text : List Char) :
    decode? .start (List.replicate lines ';' ++ text) =
      (decode? .start text).map (List.map (Segment.lowered lines)) := by
  have hstart : Cursor.start.down lines = Cursor.start.lowered lines := by
    cases lines <;> simp [Cursor.start, Cursor.down, Cursor.lowered]
  rw [decode?_semicolons, hstart, decode?_lowered]

end SourceMap
end TemplateModules
