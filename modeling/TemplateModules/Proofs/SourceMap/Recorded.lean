import Mathlib.Data.List.Forall2
import TemplateModules.Proofs.SourceMap.Decode

/-!
# What a source map records

While a text is written, a source map records the places that are related to spans, some of them
under a name.  Read back, its mappings are these records in their order, each with the place that
the text had reached, and its names hold every name once.
-/

namespace TemplateModules

namespace SourceMap

/-! ## Places -/

namespace Builder

/-- The place that a source map has reached. -/
def place (b : Builder) : Place := { line := b.line, column := b.column }

theorem place_step (b : Builder) (c : Char) : (b.step c).place = b.place.step c := by
  by_cases hc : c = '\n'
  · simp [step, Place.step, place, hc]
  · simp [step, Place.step, place, hc]

theorem place_advance (b : Builder) (text : String) :
    (b.advance text).place = b.place.past text.toList := by
  unfold advance Place.past
  generalize text.toList = cs
  induction cs generalizing b with
  | nil => rfl
  | cons c cs ih => rw [List.foldl_cons, List.foldl_cons, ih, place_step]

theorem line_le_advance (b : Builder) (text : String) : b.line ≤ (b.advance text).line := by
  have hline : (b.advance text).place.line = b.place.line + (Place.after text.toList).line := by
    rw [place_advance, Place.past_eq]
  exact Nat.le.intro hline.symm

/-- Writing leaves the mappings and the names as they are. -/
theorem kept_advance (b : Builder) (text : String) :
    (b.advance text).mappings = b.mappings ∧ (b.advance text).names = b.names := by
  unfold advance
  generalize text.toList = cs
  induction cs generalizing b with
  | nil => exact ⟨rfl, rfl⟩
  | cons c cs ih =>
      obtain ⟨hmappings, hnames⟩ := ih (b.step c)
      rw [List.foldl_cons, hmappings, hnames]
      by_cases hc : c = '\n'
      · simp [step, hc]
      · simp [step, hc]

theorem mappings_advance (b : Builder) (text : String) :
    (b.advance text).mappings = b.mappings :=
  (b.kept_advance text).1

theorem names_advance (b : Builder) (text : String) : (b.advance text).names = b.names :=
  (b.kept_advance text).2

end Builder

/-! ## Actions and records -/

/-- What is done to a source map while a text is written. -/
inductive Action where
  | file (name : String)
  | content (text : String)
  | write (text : String)
  | relate (span : Span) (name : Option String)

/-- The source map after one more action. -/
def Builder.act (b : Builder) : Action → Builder
  | .file name => b.setFile name
  | .content text => b.addContent text
  | .write text => b.advance text
  | .relate span name => b.map span name

/-- The source map after a run of actions. -/
def Builder.run (b : Builder) (actions : List Action) : Builder :=
  actions.foldl Builder.act b

/-- A span that is related to the end of a text. -/
structure Record where
  /-- The text that has been written so far. -/
  before : List Char
  span : Span
  name : Option String

/-- The records of actions that go on behind a text. -/
def recordsFrom (before : List Char) : List Action → List Record
  | [] => []
  | .file _ :: actions => recordsFrom before actions
  | .content _ :: actions => recordsFrom before actions
  | .write text :: actions => recordsFrom (before ++ text.toList) actions
  | .relate span name :: actions => { before, span, name } :: recordsFrom before actions

/-- A segment leads from the end of the text of a record to the start of its span in the only
source.  It has a name just if the record has one, and then the number under which the names hold
it. -/
structure Record.Told (names : List String) (r : Record) (s : Segment) : Prop where
  line : s.generated.line = r.before.count '\n'
  column : s.generated.column = (r.before.reverse.takeWhile (· ≠ '\n')).length
  origin : ∃ index : Option Nat,
    s.origin =
      some { source := 0, place := { line := r.span.line - 1, column := r.span.column },
             name := index } ∧
    index.map (names[·]?) = r.name.map some

/-- The positions of a record are below the limit. -/
structure Record.Near (r : Record) : Prop where
  line : r.span.line - 1 < positionLimit
  column : r.span.column < positionLimit
  generatedColumn : (r.before.reverse.takeWhile (· ≠ '\n')).length < positionLimit

instance (r : Record) : Decidable r.Near :=
  decidable_of_iff
    (r.span.line - 1 < positionLimit ∧ r.span.column < positionLimit ∧
      (r.before.reverse.takeWhile (· ≠ '\n')).length < positionLimit)
    ⟨fun ⟨hline, hcolumn, hgenerated⟩ => ⟨hline, hcolumn, hgenerated⟩,
      fun ⟨hline, hcolumn, hgenerated⟩ => ⟨hline, hcolumn, hgenerated⟩⟩

/-- More names at the end do not change what a segment tells. -/
theorem Record.Told.mono
    {names more : List String} {r : Record} {s : Segment}
    (h : r.Told names s) (hnames : names <+: more) :
    r.Told more s where
  line := h.line
  column := h.column
  origin := by
    obtain ⟨index, horigin, hname⟩ := h.origin
    refine ⟨index, horigin, ?_⟩
    obtain ⟨later, rfl⟩ := hnames
    cases index with
    | none => exact hname
    | some i =>
        rw [← hname, Option.map_some, Option.map_some, List.getElem?_append_left]
        cases hr : r.name with
        | none => simp [hr] at hname
        | some name =>
            have hi : names[i]? = some name := by simpa [hr] using hname
            exact (List.getElem?_eq_some_iff.mp hi).1

/-! ## One action -/

namespace Builder

/-- A name is found under its number, in names that are the same apart from a new one at the end. -/
theorem intern_spec (name : String) (names : List String) :
    names <+: (intern name names).2 ∧
      (intern name names).2[(intern name names).1]? = some name ∧
      (names.Nodup → (intern name names).2.Nodup) := by
  unfold intern
  cases hfound : names.findIdx? (· == name) with
  | none =>
      have hnew : name ∉ names := by
        intro hmem
        have hnone := List.findIdx?_eq_none_iff.mp hfound name hmem
        simp at hnone
      refine ⟨List.prefix_append .., by simp, fun hnodup => ?_⟩
      simpa [List.nodup_append, hnodup] using fun a ha => ne_of_mem_of_not_mem ha hnew
  | some i =>
      obtain ⟨hi, heq, -⟩ := List.findIdx?_eq_some_iff_getElem.mp hfound
      refine ⟨List.prefix_refl names, ?_, id⟩
      rw [List.getElem?_eq_getElem hi]
      simpa using heq

/-- Relating a span adds one mapping, which tells its record. -/
theorem exists_mappings_map
    {b : Builder} {before : List Char} (h : b.place = Place.after before)
    (span : Span) (name : Option String) :
    ∃ m : Mapping, (b.map span name).mappings = b.mappings ++ [m] ∧ m.generatedLine = b.line ∧
      Record.Told (b.map span name).names { before, span, name } m.segment := by
  rw [Place.after_eq, place, Place.mk.injEq] at h
  refine ⟨_, rfl, rfl, h.1, h.2, ?_⟩
  cases name with
  | none => exact ⟨none, rfl, rfl⟩
  | some name =>
      refine ⟨some (intern name b.names).1, rfl, ?_⟩
      exact congrArg some (intern_spec name b.names).2.1

/-- Actions add names at the end only, and add none twice. -/
theorem names_act (b : Builder) (a : Action) :
    b.names <+: (b.act a).names ∧ (b.names.Nodup → (b.act a).names.Nodup) := by
  cases a with
  | file name => exact ⟨List.prefix_refl _, id⟩
  | content text => exact ⟨List.prefix_refl _, id⟩
  | write text =>
      rw [act, names_advance]
      exact ⟨List.prefix_refl _, id⟩
  | relate span name =>
      cases name with
      | none => exact ⟨List.prefix_refl _, id⟩
      | some name =>
          obtain ⟨hkept, -, hnodup⟩ := intern_spec name b.names
          exact ⟨hkept, hnodup⟩

/-! ## Runs -/

theorem run_cons (b : Builder) (a : Action) (actions : List Action) :
    b.run (a :: actions) = (b.act a).run actions := rfl

theorem names_run (b : Builder) (actions : List Action) :
    b.names <+: (b.run actions).names ∧ (b.names.Nodup → (b.run actions).names.Nodup) := by
  induction actions generalizing b with
  | nil => exact ⟨List.prefix_refl _, id⟩
  | cons a actions ih =>
      obtain ⟨hkept, hnodup⟩ := b.names_act a
      obtain ⟨hlater, hlater'⟩ := ih (b.act a)
      exact ⟨hkept.trans hlater, fun h => hlater' (hnodup h)⟩

end Builder

theorem Ascending.mono {line line' : Nat} {ms : List Mapping}
    (h : Ascending line' ms) (hle : line ≤ line') : Ascending line ms := by
  cases ms with
  | nil => exact trivial
  | cons m ms => exact ⟨Nat.le_trans hle h.1, h.2⟩

/-- A run adds one mapping for each of its records, and their lines do not go back. -/
theorem Builder.exists_mappings_run
    {b : Builder} {before : List Char} (h : b.place = Place.after before)
    (actions : List Action) :
    ∃ ms, (b.run actions).mappings = b.mappings ++ ms ∧ Ascending b.line ms ∧
      List.Forall₂ (fun r m => Record.Told (b.run actions).names r m.segment)
        (recordsFrom before actions) ms := by
  induction actions generalizing b before with
  | nil => exact ⟨[], (List.append_nil _).symm, trivial, .nil⟩
  | cons a actions ih =>
      cases a with
      | file name => exact ih (b := b.setFile name) h
      | content text => exact ih (b := b.addContent text) h
      | write text =>
          have hplace : (b.advance text).place = Place.after (before ++ text.toList) := by
            rw [place_advance, h, Place.after_append]
          obtain ⟨ms, hms, hascending, htold⟩ := ih hplace
          rw [mappings_advance] at hms
          exact ⟨ms, hms, hascending.mono (b.line_le_advance text), htold⟩
      | relate span name =>
          obtain ⟨m, hm, hline, htells⟩ := exists_mappings_map h span name
          obtain ⟨ms, hms, hascending, htold⟩ := ih (b := b.map span name) h
          have hlater := ((b.map span name).names_run actions).1
          refine ⟨m :: ms, ?_, ⟨Nat.le_of_eq hline.symm, hline ▸ hascending⟩,
            .cons (htells.mono hlater) htold⟩
          rw [run_cons, act, hms, hm, List.append_assoc, List.singleton_append]

/-- Mappings that tell near records under few names are small. -/
theorem Record.Told.small
    {names : List String} {r : Record} {m : Mapping}
    (h : r.Told names m.segment) (hr : r.Near) (hnames : names.length ≤ positionLimit) :
    m.Small := by
  obtain ⟨index, horigin, hname⟩ := h.origin
  simp only [Mapping.segment, Option.some.injEq, Origin.mk.injEq, Place.mk.injEq, true_and]
    at horigin
  obtain ⟨⟨hline, hcolumn⟩, hindex⟩ := horigin
  have hgenerated : m.generatedColumn = _ := h.column
  refine ⟨hgenerated ▸ hr.generatedColumn, hline ▸ hr.line, hcolumn ▸ hr.column, ?_⟩
  intro i hi
  rw [← hindex, Option.mem_def.mp hi] at hname
  cases hr : r.name with
  | none => simp [hr] at hname
  | some name =>
      have hi : names[i]? = some name := by simpa [hr] using hname
      exact Nat.lt_of_lt_of_le (List.getElem?_eq_some_iff.mp hi).1 hnames

theorem forall_small
    {names : List String} {records : List Record} {ms : List Mapping}
    (h : List.Forall₂ (fun r m => Record.Told names r m.segment) records ms)
    (hnear : ∀ r ∈ records, r.Near) (hnames : names.length ≤ positionLimit) :
    ∀ m ∈ ms, m.Small := by
  induction h with
  | nil => simp
  | cons htold _ ih =>
      rw [List.forall_mem_cons] at hnear ⊢
      exact ⟨htold.small hnear.1 hnames, ih hnear.2⟩

/-- The mappings of a source map are written, and are read back as the records of its actions in
their order; and its names are all different. -/
theorem run_decodes
    (source : String) {actions : List Action}
    (hnear : ∀ r ∈ recordsFrom [] actions, r.Near)
    (hnames : ((Builder.new source).run actions).names.length ≤ positionLimit) :
    ∃ mappings segments,
      ((Builder.new source).run actions).mappingsText? = some mappings ∧
      decode? .start mappings.toList = some segments ∧
      List.Forall₂ (Record.Told ((Builder.new source).run actions).names)
        (recordsFrom [] actions) segments ∧
      ((Builder.new source).run actions).names.Nodup := by
  have hplace : (Builder.new source).place = Place.after [] := rfl
  obtain ⟨ms, hms, hascending, htold⟩ := Builder.exists_mappings_run hplace actions
  have hstart : Previous.start.Small := by
    constructor <;> decide
  have hsmall : ∀ m ∈ ms, m.Small := forall_small htold hnear hnames
  obtain ⟨text, htext, -, hdecode⟩ := exists_encode? hstart hsmall hascending false
  have hwritten : ((Builder.new source).run actions).mappings = ms := hms
  refine ⟨String.ofList text, ms.map Mapping.segment, ?_, ?_, ?_, ?_⟩
  · rw [Builder.mappingsText?, hwritten, htext, Option.map_some]
  · rw [String.toList_ofList]
    exact hdecode
  · rw [List.forall₂_map_right_iff]
    exact htold
  · exact ((Builder.new source).names_run actions).2 List.nodup_nil

/-- Segments on several lines, two of them on one, with differences in both directions and a name
that comes back. -/
def cardActions : List Action :=
  [.file "card.js", .content "a\n\x7b\x7btitle\x7d\x7d", .write "head\n\n  ",
    .relate { start := 12, stop := 21, line := 7, column := 5, endLine := 7, endColumn := 14 }
      (some "title"),
    .write "buffer", .relate .unplaced none, .write "é\n",
    .relate { start := 2, stop := 3, line := 2, column := 1, endLine := 2, endColumn := 2 }
      (some "body"),
    .relate { start := 0, stop := 9, line := 0, column := 9, endLine := 0, endColumn := 9 }
      (some "title")]

theorem card_decodes :
    (∀ r ∈ recordsFrom [] cardActions, r.Near) ∧
    ((Builder.new "card.hbs").run cardActions).names.length ≤ positionLimit ∧
    ∃ mappings segments,
      ((Builder.new "card.hbs").run cardActions).mappingsText? = some mappings ∧
      decode? .start mappings.toList = some segments ∧
      List.Forall₂ (Record.Told ((Builder.new "card.hbs").run cardActions).names)
        (recordsFrom [] cardActions) segments ∧
      ((Builder.new "card.hbs").run cardActions).names.Nodup := by
  have hnear : ∀ r ∈ recordsFrom [] cardActions, r.Near := by decide +kernel
  have hnames : ((Builder.new "card.hbs").run cardActions).names.length ≤ positionLimit := by
    decide +kernel
  exact ⟨hnear, hnames, run_decodes "card.hbs" hnear hnames⟩

end SourceMap
end TemplateModules
