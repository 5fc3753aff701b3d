import TemplateModules.Proofs.Script.Scan

/-!
# The parts of a script

A separator that stands outside of all brackets divides a script into parts: a semicolon the body of
a function into statements, a comma the inside of an object into fields.  What stands in brackets is
not divided.
-/

namespace TemplateModules
namespace Script

/-- The parts of a script, from a list of awaited closing brackets on, unless a bracket is left
open or closes nothing. -/
def partsFrom (sep : Char) : List Char → List Mark → Option (List (List Mark))
  | awaited, [] => if awaited = [] then some [[]] else none
  | awaited, m :: ms =>
      if awaited = [] ∧ m = .char sep then (partsFrom sep [] ms).map ([] :: ·)
      else
        (bracket awaited m).bind fun after =>
          (partsFrom sep after ms).map (List.modifyHead (m :: ·))

/-- The parts of a script between separators that stand outside of brackets. -/
def parts? (sep : Char) (ms : List Mark) : Option (List (List Mark)) :=
  partsFrom sep [] ms

/-- The closing brackets that are awaited after a mark, unless it divides the script. -/
def passMark (sep : Char) (awaited : List Char) (m : Mark) : Option (List Char) :=
  if awaited = [] ∧ m = .char sep then none else bracket awaited m

/-- Follows the brackets of a script that is not divided. -/
def pass (sep : Char) (awaited : List Char) (ms : List Mark) : Option (List Char) :=
  ms.foldlM (passMark sep) awaited

/-- A script that closes its own brackets and is not divided outside of them. -/
def Whole (sep : Char) (ms : List Mark) : Prop :=
  pass sep [] ms = some []

instance (sep : Char) (ms : List Mark) : Decidable (Whole sep ms) :=
  inferInstanceAs (Decidable (pass sep [] ms = some []))

section

variable {sep : Char} {before after : List Char} {ms ns : List Mark}

theorem pass_nil : pass sep before [] = some before := rfl

theorem pass_cons (m : Mark) :
    pass sep before (m :: ms) = (passMark sep before m).bind (pass sep · ms) := by
  simp [pass, List.foldlM_cons]

theorem pass_append :
    pass sep before (ms ++ ns) = (pass sep before ms).bind (pass sep · ns) := by
  simp [pass, List.foldlM_append]

theorem Whole.append (hms : Whole sep ms) (hns : Whole sep ns) : Whole sep (ms ++ ns) := by
  rw [Whole, pass_append, hms, Option.bind_some, hns]

/-- What stands in brackets is not divided, whatever it is. -/
theorem pass_inside
    (h : nest before ms = some after) {outer : List Char} (houter : outer ≠ []) :
    pass sep (before ++ outer) ms = some (after ++ outer) := by
  induction ms generalizing before with
  | nil =>
      rw [nest_nil, Option.some.injEq] at h
      rw [h, pass_nil]
  | cons m ms ih =>
      rw [nest_cons] at h
      obtain ⟨between, hm, hms⟩ := Option.bind_eq_some_iff.mp h
      have hmark : passMark sep (before ++ outer) m = some (between ++ outer) := by
        simp [passMark, houter, bracket_frame hm outer]
      rw [pass_cons, hmark, Option.bind_some]
      exact ih hms

/-- Brackets around code that closes its own ones. -/
theorem whole_between
    {opening closing : List Mark} {outer : List Char}
    (hopening : pass sep [] opening = some outer) (houter : outer ≠ []) (h : Balanced ms)
    (hclosing : pass sep outer closing = some []) :
    Whole sep (opening ++ ms ++ closing) := by
  have hinside : pass sep outer ms = some outer := by
    simpa using pass_inside h houter
  rw [Whole, pass_append, pass_append, hopening, Option.bind_some, hinside, Option.bind_some,
    hclosing]

theorem partsFrom_append (h : pass sep before ms = some after) (rest : List Mark) :
    partsFrom sep before (ms ++ rest) =
      (partsFrom sep after rest).map (List.modifyHead (ms ++ ·)) := by
  induction ms generalizing before with
  | nil =>
      rw [pass_nil, Option.some.injEq] at h
      have hid : List.modifyHead (fun part : List Mark => [] ++ part) = id := by
        funext parts
        cases parts with
        | nil => rfl
        | cons part parts => rfl
      rw [h, hid, Option.map_id, id, List.nil_append]
  | cons m ms ih =>
      rw [pass_cons] at h
      obtain ⟨between, hm, hms⟩ := Option.bind_eq_some_iff.mp h
      by_cases hsep : before = [] ∧ m = .char sep
      · simp [passMark, hsep] at hm
      · have hbracket : bracket before m = some between := by simpa [passMark, hsep] using hm
        rw [List.cons_append, partsFrom, if_neg hsep, hbracket, Option.bind_some, ih hms,
          Option.map_map]
        congr 1
        funext parts
        cases parts with
        | nil => rfl
        | cons part parts => rfl

/-- A whole script is one part. -/
theorem parts?_of_whole (h : Whole sep ms) : parts? sep ms = some [ms] := by
  have hparts := partsFrom_append h []
  simpa [parts?, partsFrom] using hparts

/-- A whole script is divided from what follows its separator. -/
theorem parts?_cons (h : Whole sep ms) (rest : List Mark) :
    parts? sep (ms ++ .char sep :: rest) = (parts? sep rest).map (ms :: ·) := by
  have hsep : partsFrom sep [] (.char sep :: rest) = (partsFrom sep [] rest).map ([] :: ·) := by
    simp [partsFrom]
  rw [parts?, partsFrom_append h, hsep, Option.map_map, parts?]
  congr 1
  funext parts
  simp

/-- Scripts with separators between them are divided into just these scripts. -/
theorem parts?_join
    {part : List Mark} {parts : List (List Mark)}
    (hpart : Whole sep part) (hparts : ∀ p ∈ parts, Whole sep p) :
    parts? sep (part ++ parts.flatMap (.char sep :: ·)) = some (part :: parts) := by
  induction parts generalizing part with
  | nil => simpa using parts?_of_whole hpart
  | cons next parts ih =>
      rw [List.forall_mem_cons] at hparts
      rw [List.flatMap_cons, List.cons_append, parts?_cons hpart, ih hparts.1 hparts.2]
      rfl

end

/-! ## Objects -/

/-- A field of an object: its key, as it stands between quotes, and its value. -/
structure Field where
  key : List Char
  value : List Mark

/-- What a scan meets in a field. -/
def Field.marks (field : Field) : List Mark :=
  .literal field.key :: .char ':' :: field.value

/-- A script is an object with given fields. -/
def IsObject (ms : List Mark) (fields : List Field) : Prop :=
  ∃ inner, ms = .char '\x7b' :: (inner ++ [.char '\x7d']) ∧
    parts? ',' inner = some (fields.map Field.marks)

theorem whole_field {field : Field} (h : Whole ',' field.value) : Whole ',' field.marks := by
  have hkey : Whole ',' [.literal field.key, .char ':'] := rfl
  exact hkey.append h

/-- Fields with commas between them, in braces, are an object. -/
theorem isObject_of_fields
    {field : Field} {fields : List Field}
    (hfield : Whole ',' field.value) (hfields : ∀ f ∈ fields, Whole ',' f.value) :
    IsObject
      (.char '\x7b' :: (field.marks ++ fields.flatMap (.char ',' :: ·.marks) ++ [.char '\x7d']))
      (field :: fields) := by
  refine ⟨_, rfl, ?_⟩
  have hmarks : ∀ p ∈ fields.map Field.marks, Whole ',' p := by
    intro p hp
    obtain ⟨f, hf, rfl⟩ := List.mem_map.mp hp
    exact whole_field (hfields f hf)
  have hparts := parts?_join (whole_field hfield) hmarks
  rwa [List.flatMap_map] at hparts

end Script
end TemplateModules
