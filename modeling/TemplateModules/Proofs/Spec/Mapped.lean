import Mathlib.Tactic.Common
import TemplateModules.Proofs.SourceMap.Recorded
import TemplateModules.Proofs.Spec.Compiled
import TemplateModules.Proofs.Template.Statements

/-!
# Where the lines of the main function come from

While the main function is written, each line of a tag is related to its tag.  The places of these
lines are counted in the code of the template, and lie as far down in a text around it as the code
does.
-/

namespace TemplateModules

namespace SourceMap

/-- The mapping from a place in the generated text to the start of a span. -/
def Mapping.between (place : Place) (span : Span) : Mapping where
  generatedLine := place.line
  generatedColumn := place.column
  sourceLine := span.line - 1
  sourceColumn := span.column
  name := none

namespace Builder

theorem mappings_map (b : Builder) (span : Span) :
    (b.map span none).mappings = b.mappings ++ [.between b.place span] := rfl

theorem place_map (b : Builder) (span : Span) : (b.map span none).place = b.place := rfl

end Builder
end SourceMap

namespace Spec

open SourceMap Template

/-! ## The mappings of lines -/

/-- What stands in front of each statement. -/
def indent : List Char := "  ".toList

/-- A line of the main function, from its indentation to its end. -/
def lineText (line : Line SectionRef) : List Char :=
  indent ++ ("buffer += " ++ line.code ++ ";").toList ++ ['\n']

/-- The mappings of lines that are written behind a text: one for each line of a tag, from the start
of its statement. -/
def lineMappings (before : List Char) : List (Line SectionRef) → List Mapping
  | [] => []
  | line :: lines =>
      (line.tag?.map (.between (Place.after (before ++ indent)))).toList ++
        lineMappings (before ++ lineText line) lines

section

variable {before : List Char} {line : Line SectionRef} {lines : List (Line SectionRef)}

theorem mappings_mapLines {b : Builder} (h : b.place = Place.after before) :
    (mapLines b lines).mappings = b.mappings ++ lineMappings before lines := by
  induction lines generalizing b before with
  | nil => simp [mapLines, lineMappings]
  | cons line lines ih =>
      have hindent : (b.advance "  ").place = Place.after (before ++ indent) := by
        rw [Builder.place_advance, h, Place.after_append, indent]
      have hend : ∀ p : Place, p = Place.after (before ++ indent) →
          p.past (line.statement ++ "\n").toList = Place.after (before ++ lineText line) := by
        rintro _ rfl
        rw [← Place.after_append, lineText, Line.statement, String.toList_append]
        simp only [List.append_assoc]
        rfl
      cases htag : line.tag? with
      | none =>
          have hplace : ((b.advance "  ").advance (line.statement ++ "\n")).place =
              Place.after (before ++ lineText line) := by
            rw [Builder.place_advance]
            exact hend _ hindent
          have hrest := ih hplace
          rw [Builder.mappings_advance, Builder.mappings_advance] at hrest
          simpa [mapLines, lineMappings, htag] using hrest
      | some tag =>
          have hplace :
              (((b.advance "  ").map tag none).advance (line.statement ++ "\n")).place =
                Place.after (before ++ lineText line) := by
            rw [Builder.place_advance, Builder.place_map]
            exact hend _ hindent
          have hrest := ih hplace
          rw [Builder.mappings_advance, Builder.mappings_map, Builder.mappings_advance,
            hindent] at hrest
          simpa [mapLines, lineMappings, htag] using hrest

theorem line_after_indent (before : List Char) :
    (Place.after (before ++ indent)).line = (Place.after before).line := by
  rw [Place.after_append, Place.past_of_notMem _ (by decide)]

theorem line_le_after (before text : List Char) :
    (Place.after before).line ≤ (Place.after (before ++ text)).line := by
  rw [Place.after_append, Place.past_eq]
  exact Nat.le_add_right _ _

/-- The lines of the mappings do not go back. -/
theorem ascending_lineMappings {n : Nat} (h : n ≤ (Place.after before).line) :
    Ascending n (lineMappings before lines) := by
  induction lines generalizing n before with
  | nil => exact trivial
  | cons line lines ih =>
      have hlater := line_le_after before (lineText line)
      cases htag : line.tag? with
      | none => simpa [lineMappings, htag] using ih (Nat.le_trans h hlater)
      | some tag =>
          have hline := line_after_indent before
          simp only [lineMappings, htag, Option.map_some, Option.toList_some,
            List.singleton_append]
          constructor
          · exact Nat.le_trans h (Nat.le_of_eq hline.symm)
          · apply ih
            exact Nat.le_trans (Nat.le_of_eq hline) hlater

/-- A span that starts where mappings can be written. -/
def Near (span : Span) : Prop := span.line - 1 < positionLimit ∧ span.column < positionLimit

/-- All tags of a source that is not too long start there. -/
theorem near_of_parse
    {source : String} {program : Program} {s : Statement} {span : Span}
    (hlength : source.length < positionLimit) (hparse : parse source = .ok program)
    (hs : s ∈ program.body) (hspan : span ∈ s.span?) :
    Near span := by
  obtain ⟨place, ⟨before, rest, hsource, -, rfl⟩, hline, hcolumn⟩ :=
    wellPlaced_of_parse hparse hs hspan
  have hplace := Place.line_add_column_le before
  have hbefore : before.length ≤ source.length := by
    rw [← String.length_toList, hsource, List.append_assoc, List.length_append]
    exact Nat.le_add_right _ _
  constructor
  · omega
  · omega

/-- Statements start in the third column, so the mappings of lines are small. -/
theorem small_of_mem_lineMappings
    (hbefore : (Place.after before).column = 0)
    (hnear : ∀ line ∈ lines, ∀ tag ∈ line.tag?, Near tag)
    {m : Mapping} (hm : m ∈ lineMappings before lines) :
    m.Small := by
  induction lines generalizing before with
  | nil => cases hm
  | cons line lines ih =>
      have hindent : (Place.after (before ++ indent)).column = 2 := by
        rw [Place.after_append, Place.past_of_notMem _ (by decide), hbefore]
        rfl
      have hend : (Place.after (before ++ lineText line)).column = 0 := by
        rw [lineText, ← List.append_assoc, Place.after_concat]
        simp [Place.step]
      rw [lineMappings, List.mem_append] at hm
      rcases hm with hm | hm
      · cases htag : line.tag? with
        | none => simp [htag] at hm
        | some tag =>
            obtain ⟨hline, hcolumn⟩ := hnear line List.mem_cons_self tag htag
            simp only [htag, Option.map_some, Option.toList_some, List.mem_singleton] at hm
            subst hm
            refine ⟨?_, hline, hcolumn, ?_⟩
            · change (Place.after (before ++ indent)).column < positionLimit
              rw [hindent]
              decide
            · simp [Mapping.between]
      · exact ih hend (fun l hl => hnear l (List.mem_cons_of_mem line hl)) hm

end

/-! ## The statements of a program -/

/-- Statements whose lines are written behind a text, and the segments of a source map for them. -/
inductive Mapped
    (options : Options) (scopes : Scopes) (source : List Char) :
    List Char → List Statement → List Char → List Segment → Prop where
  | nil (before : List Char) : Mapped options scopes source before [] [] []
  /-- Comments and empty content have neither a line nor a segment. -/
  | silent {before s body text segments}
      (hspan : s.span? = none)
      (hline : (compileStatement options scopes s).result = .ok none)
      (hrest : Mapped options scopes source before body text segments) :
      Mapped options scopes source before (s :: body) text segments
  /-- Content has a line and no segment. -/
  | content {before s body text segments} (line : Line Section) (number : Nat)
      (hspan : s.span? = none)
      (hline : (compileStatement options scopes s).result = .ok (some line))
      (hrest : Mapped options scopes source
        (before ++ lineText (numberLine number line).1) body text segments) :
      Mapped options scopes source before (s :: body)
        (lineText (numberLine number line).1 ++ text) segments
  /-- A tag has a line and one segment, from the start of the statement to the opening braces. -/
  | tag {before s body text segments}
      (line : Line Section) (number : Nat) (span : Span) (place : Place)
      (hspan : s.span? = some span)
      (hopens : OpensAt source span place)
      (hline : (compileStatement options scopes s).result = .ok (some line))
      (hrest : Mapped options scopes source
        (before ++ lineText (numberLine number line).1) body text segments) :
      Mapped options scopes source before (s :: body)
        (lineText (numberLine number line).1 ++ text)
        ({ generated := Place.after (before ++ indent),
           origin := some { source := 0, place, name := none } } :: segments)

section

variable {options : Options} {scopes : Scopes}

/-- The line of a statement has its span as its tag. -/
theorem tag?_of_compileStatement
    {s : Statement} {line? : Option (Line Section)}
    (h : (compileStatement options scopes s).result = .ok line?) :
    line?.bind Line.tag? = s.span? := by
  cases s with
  | content text =>
      by_cases hempty : text.isEmpty
      · rw [compileStatement, if_pos hempty] at h
        cases h
        rfl
      · rw [compileStatement, if_neg hempty] at h
        cases h
        rfl
  | comment text =>
      cases h
      rfl
  | mustache call escaped tag =>
      obtain ⟨shown, -, h⟩ := Reporting.exists_of_bind h
      cases h
      rfl
  | block call main inverse tag =>
      obtain ⟨opening, -, h⟩ := Reporting.exists_of_bind h
      obtain ⟨main, -, h⟩ := Reporting.exists_of_bind h
      obtain ⟨inverse, -, h⟩ := Reporting.exists_of_bind h
      cases h
      rfl
  | inclusion name context hash tag =>
      obtain ⟨_, -, h⟩ := Reporting.exists_of_bind h
      obtain ⟨context, -, h⟩ := Reporting.exists_of_bind h
      obtain ⟨hash, -, h⟩ := Reporting.exists_of_bind h
      cases h
      rfl

theorem tag?_numberLine (number : Nat) (line : Line Section) :
    (numberLine number line).1.tag? = line.tag? := by
  cases line <;> rfl

/-- The tags of compiled statements, numbered or not, are spans of the statements. -/
theorem exists_span_of_tag
    {body : List Statement} {lines : List (Line Section)} {number : Nat}
    (h : (compileLines options scopes body).result = .ok lines)
    {line : Line SectionRef} (hline : line ∈ (numberLines number lines).1)
    {tag : Span} (htag : tag ∈ line.tag?) :
    ∃ s ∈ body, tag ∈ s.span? := by
  induction body generalizing lines number with
  | nil =>
      cases h
      cases hline
  | cons s body ih =>
      obtain ⟨line?, rest, rfl, hs, hbody⟩ := exists_of_compileLines_cons h
      have hspan := tag?_of_compileStatement hs
      cases line? with
      | none =>
          obtain ⟨s', hs', hmem⟩ := ih hbody hline
          exact ⟨s', List.mem_cons_of_mem s hs', hmem⟩
      | some first =>
          rcases List.mem_cons.mp hline with rfl | hline
          · rw [tag?_numberLine] at htag
            exact ⟨s, List.mem_cons_self, hspan ▸ htag⟩
          · obtain ⟨s', hs', hmem⟩ := ih hbody hline
            exact ⟨s', List.mem_cons_of_mem s hs', hmem⟩

/-- A mapping at a place in a text is read as a segment that lies further down if lines stand in
front of the text. -/
theorem segment_lowered
    {lead before : List Char} {span : Span} {place : Place}
    (hbefore : 0 < (Place.after before).line)
    (hline : span.line = place.line + 1) (hcolumn : span.column = place.column) :
    (Mapping.between (Place.after (before ++ indent)) span).segment.lowered
        (Place.after lead).line =
      { generated := Place.after (lead ++ before ++ indent),
        origin := some { source := 0, place, name := none } } := by
  have hpositive : (Place.after (before ++ indent)).line ≠ 0 := by
    rw [line_after_indent]
    exact Nat.ne_of_gt hbefore
  have hplace : Place.after (lead ++ before ++ indent) =
      { line := (Place.after (before ++ indent)).line + (Place.after lead).line,
        column := (Place.after (before ++ indent)).column } := by
    rw [List.append_assoc, Place.after_append, Place.past_eq, if_neg hpositive, Nat.add_comm]
  rw [hplace]
  simp [Mapping.between, Mapping.segment, Segment.lowered, hline, hcolumn]

/-- The mappings of compiled statements are read as one segment for each tag, wherever the code of
the template stands. -/
theorem mapped_of_compileLines
    {source before : List Char} {body : List Statement} {lines : List (Line Section)}
    (lead : List Char) (hplaced : ∀ s ∈ body, ∀ span ∈ s.span?, WellPlaced source span)
    (h : (compileLines options scopes body).result = .ok lines) (number : Nat)
    (hbefore : 0 < (Place.after before).line) :
    Mapped options scopes source (lead ++ before) body
      ((numberLines number lines).1.flatMap lineText)
      ((lineMappings before (numberLines number lines).1).map fun m =>
        m.segment.lowered (Place.after lead).line) := by
  induction body generalizing before lines number with
  | nil =>
      cases h
      exact .nil _
  | cons s body ih =>
      obtain ⟨line?, rest, rfl, hs, hbody⟩ := exists_of_compileLines_cons h
      have hspan := tag?_of_compileStatement hs
      have hlater : ∀ s' ∈ body, ∀ span ∈ s'.span?, WellPlaced source span :=
        fun s' hs' => hplaced s' (List.mem_cons_of_mem s hs')
      cases line? with
      | none => exact .silent hspan.symm hs (ih hlater hbody number hbefore)
      | some line =>
          have hnumbered := tag?_numberLine number line
          have hnext := ih hlater hbody (number + (numberLine number line).2.length)
            (Nat.lt_of_lt_of_le hbefore
              (line_le_after before (lineText (numberLine number line).1)))
          rw [← List.append_assoc] at hnext
          cases htag : line.tag? with
          | none =>
              rw [Option.bind_some, htag] at hspan
              have hline := Mapped.content line number hspan.symm hs hnext
              simpa [numberLines, lineMappings, hnumbered, htag] using hline
          | some span =>
              rw [Option.bind_some, htag] at hspan
              obtain ⟨place, hopens, hline, hcolumn⟩ :=
                hplaced s List.mem_cons_self span hspan.symm
              have htagged := Mapped.tag line number span place hspan.symm hopens hs hnext
              rw [← segment_lowered hbefore hline hcolumn] at htagged
              simpa [numberLines, lineMappings, hnumbered, htag] using htagged

end

end Spec
end TemplateModules
