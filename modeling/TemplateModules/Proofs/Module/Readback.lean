import TemplateModules.Proofs.Module.Header
import TemplateModules.Proofs.Module.Imports

/-!
# Reading modules

The lines in front of a template are read back: the module of the runtime, the imports, and the
names that are registered with their local names.  Reading asks for nothing but the lines, so no
name and no path that is configured can add a line, join two lines or end one.
-/

namespace TemplateModules
namespace Module

open Spec Text

/-! ## Reading -/

/-- The string literal at the front of a text, and what follows it. -/
def readLiteral? : List Char → Option (String × List Char)
  | '"' :: cs => (unquote cs).map fun (text, rest) => (String.ofList text, rest)
  | _ => none

/-- The identifier at the front of a text, and what follows it. -/
def readIdentifier? (cs : List Char) : Option (String × List Char) :=
  let word := String.ofList (cs.takeWhile continuesIdentifier)
  if isIdentifier word then some (word, cs.dropWhile continuesIdentifier) else none

/-- The module of the runtime in the line that imports it. -/
def readRuntime? (line : List Char) : Option String := do
  let rest ← after? "import * as Handlebars from ".toList line
  let (runtimeModule, rest) ← readLiteral? rest
  guard (rest = ";".toList)
  return runtimeModule

/-- A local name and the module that it is imported from. -/
structure Source where
  binding : String
  specifier : String
  deriving DecidableEq, Repr

/-- What a line imports. -/
def readImport? (line : List Char) : Option Source := do
  let rest ← after? "import ".toList line
  let (binding, rest) ← readIdentifier? rest
  let rest ← after? " from ".toList rest
  let (specifier, rest) ← readLiteral? rest
  guard (rest = ";".toList)
  return { binding, specifier }

/-- What the lines at the front import, up to the first line that is no import, and the lines from
this one on. -/
def readImports : List (List Char) → List Source × List (List Char)
  | [] => ([], [])
  | line :: lines =>
      match readImport? line with
      | none => ([], line :: lines)
      | some source =>
          let (sources, rest) := readImports lines
          (source :: sources, rest)

/-- A name and the local name that it is registered with. -/
structure Registration where
  name : String
  binding : String
  deriving DecidableEq, Repr

/-- The registration at the front of a text, and what follows it. -/
def readRegistration? (cs : List Char) : Option (Registration × List Char) := do
  let (name, rest) ← readLiteral? cs
  let rest ← after? ": ".toList rest
  let (binding, rest) ← readIdentifier? rest
  return ({ name, binding }, rest)

/-- The registrations in a text, with commas between them and the end of the line behind the last
one. -/
def readRegistrations? (cs : List Char) : Option (List Registration) :=
  match readRegistration? cs with
  | none => none
  | some (registration, rest) =>
      if rest = "\x7d);".toList then some [registration]
      else
        match after? ", ".toList rest with
        | none => none
        | some more =>
            if _ : more.length < cs.length then
              (readRegistrations? more).map (registration :: ·)
            else none
termination_by cs.length

/-- What a line registers by a function of the runtime. -/
def readRegistrationLine? (function : String) (line : List Char) :
    Option (List Registration) := do
  let rest ← after? ("Handlebars." ++ function ++ "(\x7b").toList line
  if rest = "\x7d);".toList then some [] else readRegistrations? rest

/-- What the lines in front of a template say. -/
structure Header where
  runtimeModule : String
  imports : List Source
  helpers : List Registration
  partials : List Registration
  deriving DecidableEq, Repr

/-- What the lines of a module say in front of its template, and the lines from the template on. -/
def readHeader? : List (List Char) → Option (Header × List (List Char))
  | [] => none
  | first :: lines => do
      let runtimeModule ← readRuntime? first
      match readImports lines with
      | (imports, helperLine :: partialLine :: rest) => do
          let helpers ← readRegistrationLine? "registerHelper" helperLine
          let partials ← readRegistrationLine? "registerPartial" partialLine
          return ({ runtimeModule, imports, helpers, partials }, rest)
      | _ => none

/-! ## Parts of lines -/

theorem readLiteral?_quoted (s : String) (rest : List Char) :
    readLiteral? ((quoted s).toList ++ rest) = some (s, rest) := by
  rw [toList_quoted, List.cons_append, List.append_assoc, readLiteral?, List.singleton_append,
    unquote_escaped, Option.map_some]
  exact congrArg (fun text => some (text, rest)) String.ofList_toList

/-- An identifier is read up to a character that cannot stand in it. -/
theorem readIdentifier?_append
    {name : String} (h : isIdentifier name = true) {c : Char} (hc : continuesIdentifier c = false)
    (rest : List Char) :
    readIdentifier? (name.toList ++ c :: rest) = some (name, c :: rest) := by
  have hall := (isIdentifier_iff.mp h).2
  have htake : (name.toList ++ c :: rest).takeWhile continuesIdentifier = name.toList := by
    rw [List.takeWhile_append_of_pos hall, List.takeWhile_cons_of_neg (by simp [hc]),
      List.append_nil]
  have hdrop : (name.toList ++ c :: rest).dropWhile continuesIdentifier = c :: rest := by
    rw [List.dropWhile_append_of_pos hall, List.dropWhile_cons_of_neg (by simp [hc])]
  simp only [readIdentifier?, htake, hdrop, String.ofList_toList, h, if_true]

/-! ## Lines -/

/-- What an import says in its line. -/
def Import.source (i : Import) : Source :=
  { binding := i.binding, specifier := i.specifier }

/-- What an import says where it is registered. -/
def Import.registration (i : Import) : Registration :=
  { name := i.name, binding := i.binding }

theorem readRuntime?_runtimeLine (runtimeModule : String) :
    readRuntime? (runtimeLine runtimeModule).toList = some runtimeModule := by
  have hline : (runtimeLine runtimeModule).toList =
      "import * as Handlebars from ".toList ++ ((quoted runtimeModule).toList ++ ";".toList) := by
    have hstart : "import * as " ++ runtimeName ++ " from " = "import * as Handlebars from " := rfl
    rw [runtimeLine, hstart, String.toList_append, String.toList_append, List.append_assoc]
  rw [readRuntime?, hline, after?_append]
  dsimp only [Option.bind_eq_bind, Option.bind_some]
  rw [readLiteral?_quoted]
  rfl

theorem readImport?_line {i : Import} (h : isIdentifier i.binding = true) :
    readImport? i.line.toList = some i.source := by
  have hline : i.line.toList =
      "import ".toList ++ (i.binding.toList ++ (" from ".toList ++
        ((quoted i.specifier).toList ++ ";".toList))) := by
    simp only [Import.line, String.toList_append, List.append_assoc]
  have hbinding := readIdentifier?_append h (c := ' ') (by decide)
    ("from ".toList ++ ((quoted i.specifier).toList ++ ";".toList))
  have hfrom : " from ".toList ++ ((quoted i.specifier).toList ++ ";".toList) =
      ' ' :: ("from ".toList ++ ((quoted i.specifier).toList ++ ";".toList)) := rfl
  rw [readImport?, hline, after?_append]
  dsimp only [Option.bind_eq_bind, Option.bind_some]
  rw [hfrom, hbinding]
  dsimp only [Option.bind_eq_bind, Option.bind_some]
  rw [← hfrom, after?_append]
  dsimp only [Option.bind_eq_bind, Option.bind_some]
  rw [readLiteral?_quoted]
  rfl

/-- A line that registers something imports nothing. -/
theorem readImport?_registrationLine (function : String) (imports : List Import) :
    readImport? (registrationLine function imports).toList = none := by
  have hline : ∃ rest, (registrationLine function imports).toList = 'H' :: rest := by
    simp only [registrationLine, String.toList_append, List.append_assoc]
    exact ⟨_, rfl⟩
  obtain ⟨rest, hrest⟩ := hline
  rw [readImport?, hrest]
  rfl

theorem readRegistration?_entry
    {i : Import} (h : isIdentifier i.binding = true) {c : Char} (hc : continuesIdentifier c = false)
    (rest : List Char) :
    readRegistration? (i.entry.toList ++ c :: rest) = some (i.registration, c :: rest) := by
  have hentry : i.entry.toList ++ c :: rest =
      (quoted i.name).toList ++ (": ".toList ++ (i.binding.toList ++ c :: rest)) := by
    simp only [Import.entry, String.toList_append, List.append_assoc]
  rw [readRegistration?, hentry, readLiteral?_quoted]
  simp only [Option.bind_eq_bind, Option.bind_some]
  rw [after?_append]
  simp only [Option.bind_some, readIdentifier?_append h hc]
  rfl

theorem readRegistrations?_entries
    {i : Import} {imports : List Import}
    (h : ∀ j ∈ i :: imports, isIdentifier j.binding = true) :
    readRegistrations?
        ((", ".intercalate ((i :: imports).map Import.entry)).toList ++ "\x7d);".toList) =
      some ((i :: imports).map Import.registration) := by
  induction imports generalizing i with
  | nil =>
      have hend : "\x7d);".toList = '\x7d' :: ");".toList := rfl
      have hfirst := readRegistration?_entry (h i List.mem_cons_self) (c := '\x7d') (by decide)
        ");".toList
      rw [List.map_singleton, String.intercalate_singleton, readRegistrations?, hend, hfirst]
      simp only [if_pos, List.map_singleton]
  | cons next imports ih =>
      obtain ⟨hi, hmore⟩ := List.forall_mem_cons.mp h
      obtain ⟨more, hmoreText⟩ : ∃ more, more =
          (", ".intercalate ((next :: imports).map Import.entry)).toList ++ "\x7d);".toList :=
        ⟨_, rfl⟩
      have htext : (", ".intercalate ((i :: next :: imports).map Import.entry)).toList ++
          "\x7d);".toList = i.entry.toList ++ ',' :: ' ' :: more := by
        rw [List.map_cons, String.intercalate_cons_of_ne_nil (by simp), String.toList_append,
          String.toList_append, List.append_assoc, List.append_assoc, ← hmoreText]
        rfl
      have hfirst := readRegistration?_entry hi (c := ',') (by decide) (' ' :: more)
      have hafter : after? ", ".toList (',' :: ' ' :: more) = some more :=
        after?_append ", ".toList more
      have hshorter : more.length < (i.entry.toList ++ ',' :: ' ' :: more).length := by
        rw [List.length_append, List.length_cons, List.length_cons]
        omega
      have hgoesOn : ',' :: ' ' :: more ≠ "\x7d);".toList := by
        intro heq
        exact absurd (List.cons.inj heq).1 (by decide)
      rw [htext, readRegistrations?, hfirst]
      simp only [if_neg hgoesOn, hafter, dif_pos hshorter]
      rw [hmoreText, ih hmore]
      rfl

/-- The entries of a registration start with the literal of the first name. -/
theorem exists_entries_eq (i : Import) (imports : List Import) :
    ∃ more, (", ".intercalate ((i :: imports).map Import.entry)).toList ++ "\x7d);".toList =
      '"' :: more := by
  have hentry : ∃ more, i.entry.toList = '"' :: more := by
    simp only [Import.entry, String.toList_append, List.append_assoc, toList_quoted,
      List.cons_append]
    exact ⟨_, rfl⟩
  obtain ⟨more, hmore⟩ := hentry
  cases imports with
  | nil =>
      rw [List.map_singleton, String.intercalate_singleton, hmore]
      exact ⟨_, rfl⟩
  | cons next imports =>
      rw [List.map_cons, String.intercalate_cons_of_ne_nil (by simp), String.toList_append,
        String.toList_append, hmore]
      exact ⟨_, rfl⟩

theorem readRegistrationLine?_registrationLine
    (function : String) {imports : List Import}
    (h : ∀ i ∈ imports, isIdentifier i.binding = true) :
    readRegistrationLine? function (registrationLine function imports).toList =
      some (imports.map Import.registration) := by
  have hline : (registrationLine function imports).toList =
      ("Handlebars." ++ function ++ "(\x7b").toList ++
        ((", ".intercalate (imports.map Import.entry)).toList ++ "\x7d);".toList) := by
    have hstart : runtimeName ++ "." = "Handlebars." := rfl
    rw [registrationLine, hstart, String.toList_append, String.toList_append, List.append_assoc]
  rw [readRegistrationLine?, hline, after?_append]
  cases imports with
  | nil => rfl
  | cons i imports =>
      have hentries := readRegistrations?_entries h
      have hsome : (", ".intercalate ((i :: imports).map Import.entry)).toList ++ "\x7d);".toList ≠
          "\x7d);".toList := by
        obtain ⟨more, hmore⟩ := exists_entries_eq i imports
        intro heq
        rw [hmore] at heq
        exact absurd (List.cons.inj heq).1 (by decide)
      simp only [Option.bind_eq_bind, Option.bind_some, if_neg hsome, hentries]

/-! ## Whole modules -/

/-- Lines that are joined are split again, each into those that are inside of it. -/
theorem splitOn_intercalate {lines : List String} (h : lines ≠ []) :
    ("\n".intercalate lines).toList.splitOn '\n' =
      lines.flatMap fun line => line.toList.splitOn '\n' := by
  induction lines with
  | nil => exact absurd rfl h
  | cons line lines ih =>
      by_cases hmore : lines = []
      · rw [hmore, String.intercalate_singleton, List.flatMap_singleton]
      · have htext : ("\n".intercalate (line :: lines)).toList =
            line.toList ++ '\n' :: ("\n".intercalate lines).toList := by
          rw [String.intercalate_cons_of_ne_nil hmore, String.toList_append, String.toList_append,
            List.append_assoc]
          rfl
        rw [htext, List.splitOn, List.splitOnP_append_cons _ _ (by decide), ← List.splitOn,
          ← List.splitOn, ih hmore, List.flatMap_cons]

theorem flatMap_splitOn_of_oneLine {lines : List String} (h : ∀ line ∈ lines, OneLine line) :
    (lines.flatMap fun line => line.toList.splitOn '\n') = lines.map String.toList := by
  induction lines with
  | nil => rfl
  | cons line lines ih =>
      obtain ⟨hline, hlines⟩ := List.forall_mem_cons.mp h
      have hplain : ∀ c ∈ line.toList, (c == '\n') = false := by
        intro c hc
        rw [beq_eq_false_iff_ne]
        rintro rfl
        exact hline hc
      rw [List.flatMap_cons, List.splitOn, List.splitOnP_eq_singleton hplain, ih hlines]
      rfl

/-- The first line of a text starts as the text does, up to the first newline. -/
theorem exists_splitOn_append {lead : List Char} (h : '\n' ∉ lead) (rest : List Char) :
    ∃ first later, (lead ++ rest).splitOn '\n' = first :: later ∧ lead <+: first := by
  induction lead with
  | nil =>
      cases hsplit : rest.splitOn '\n' with
      | nil => exact absurd hsplit (List.splitOnP_ne_nil _ _)
      | cons first later => exact ⟨first, later, hsplit, List.nil_prefix⟩
  | cons c lead ih =>
      obtain ⟨hc, hlead⟩ := List.ne_and_not_mem_of_not_mem_cons h
      obtain ⟨first, later, hsplit, hprefix⟩ := ih hlead
      refine ⟨c :: first, later, ?_, List.cons_prefix_cons.mpr ⟨rfl, hprefix⟩⟩
      rw [List.splitOn] at hsplit ⊢
      rw [List.cons_append, List.splitOnP_cons_eq_if_modifyHead,
        if_neg (by simpa using Ne.symm hc), hsplit]
      rfl

theorem readImports_lines
    {imports : List Import} (h : ∀ i ∈ imports, isIdentifier i.binding = true)
    {line : List Char} (hline : readImport? line = none) (rest : List (List Char)) :
    readImports ((imports.map Import.line).map String.toList ++ line :: rest) =
      (imports.map Import.source, line :: rest) := by
  induction imports with
  | nil => simp [readImports, hline]
  | cons i imports ih =>
      obtain ⟨hi, hmore⟩ := List.forall_mem_cons.mp h
      simp only [List.map_cons, List.cons_append, readImports, readImport?_line hi, ih hmore]

/-- What imports say in front of a template. -/
def Imports.header (runtimeModule : String) (imports : Imports) : Header where
  runtimeModule := runtimeModule
  imports := imports.all.map Import.source
  helpers := imports.helpers.map Import.registration
  partials := imports.partials.map Import.registration

/-- The header lines are read as what they are written for. -/
theorem readHeader?_headerLines
    (runtimeModule : String) {imports : Imports}
    (h : ∀ i ∈ imports.all, isIdentifier i.binding = true) (rest : List (List Char)) :
    readHeader? ((headerLines runtimeModule imports).map String.toList ++ rest) =
      some (imports.header runtimeModule, rest) := by
  have hhelpers := readRegistrationLine?_registrationLine "registerHelper"
    fun i hi => h i (List.mem_append_left _ hi)
  have hpartials := readRegistrationLine?_registrationLine "registerPartial"
    fun i hi => h i (List.mem_append_right _ hi)
  have himports := readImports_lines h
    (readImport?_registrationLine "registerHelper" imports.helpers)
    ((registrationLine "registerPartial" imports.partials).toList :: rest)
  have hlines : (headerLines runtimeModule imports).map String.toList ++ rest =
      (runtimeLine runtimeModule).toList ::
        ((imports.all.map Import.line).map String.toList ++
          (registrationLine "registerHelper" imports.helpers).toList ::
          (registrationLine "registerPartial" imports.partials).toList :: rest) := by
    simp [headerLines, Imports.all]
  rw [hlines, readHeader?, readRuntime?_runtimeLine]
  simp only [Option.bind_eq_bind, Option.bind_some, himports, hhelpers, hpartials]
  rfl

/-- A header is that of a module: it has the module of the runtime, the names that are referred to
and have a specifier, in the order of reference, and the imports of their local names. -/
structure Header.Of
    (header : Header) (style : Style) (refs : References) (table : ExtensionTable) : Prop where
  runtimeModule : header.runtimeModule = style.runtimeModule
  helpers : header.helpers.map Registration.name =
    refs.helpers.filter fun name => name ∈ table.helpers.keys
  partials : header.partials.map Registration.name =
    refs.partials.filter fun name => name ∈ table.partials.keys
  /-- There is one import for each registration, under its local name and from the module of its
  name. -/
  imports : header.imports.map (fun source => (source.binding, some source.specifier)) =
    header.helpers.map (fun r => (r.binding, table.helpers.get? r.name)) ++
      header.partials.map (fun r => (r.binding, table.partials.get? r.name))
  /-- No local name is imported twice, and none is that of the runtime. -/
  nodup : ("Handlebars" :: header.imports.map Source.binding).Nodup

theorem map_source_matchNames
    (kind : ExtensionKind) (table : Fields String) (used names : List String) :
    ((matchNames kind table used names).1.map Import.source).map
        (fun source => (source.binding, some source.specifier)) =
      ((matchNames kind table used names).1.map Import.registration).map
        fun r => (r.binding, table.get? r.name) := by
  rw [List.map_map, List.map_map, List.map_inj_left]
  intro i hi
  exact congrArg (i.binding, ·) (spec_of_mem_matchNames hi).1.symm

theorem map_registration_matchNames
    (kind : ExtensionKind) (table : Fields String) (used names : List String) :
    ((matchNames kind table used names).1.map Import.registration).map Registration.name =
      names.filter fun name => name ∈ table.keys := by
  rw [List.map_map, ← filter_isSome_get?, ← map_name_matchNames kind table used names]
  rfl

theorem header_of_importsOf (style : Style) (refs : References) (table : ExtensionTable) :
    ((importsOf refs table).header style.runtimeModule).Of style refs table where
  runtimeModule := rfl
  helpers := map_registration_matchNames ..
  partials := map_registration_matchNames ..
  imports := by
    rw [Imports.header, Imports.all, List.map_append, List.map_append]
    exact congrArg₂ (· ++ ·) (map_source_matchNames ..) (map_source_matchNames ..)
  nodup := by
    have hbindings : ((importsOf refs table).header style.runtimeModule).imports.map
        Source.binding = (importsOf refs table).all.map Import.binding := List.map_map
    rw [hbindings, List.nodup_cons]
    refine ⟨?_, nodup_bindings refs table⟩
    intro hmem
    obtain ⟨i, hi, hbinding⟩ := List.mem_map.mp hmem
    exact (binding_spec hi).2.2 hbinding

theorem toList_templateLine (code : String) :
    (templateLine code).toList =
      "export default Handlebars.template(".toList ++ (code ++ ");").toList := by
  have hexport : "export default " ++ runtimeName ++ ".template(" =
      "export default Handlebars.template(" := rfl
  unfold templateLine
  rw [hexport, String.append_assoc, String.toList_append]

/-- The lines of a module are those in front of its template, those inside of its template, and at
most the comment of a source map. -/
theorem exists_splitOn_text
    (style : Style) (artifact : Artifact) (refs : References) (table : ExtensionTable) :
    ∃ trailer, (trailer = [] ∨ ∃ map, trailer = [mapLine map]) ∧
      text style artifact refs table = "\n".intercalate
        (headerLines style.runtimeModule (importsOf refs table) ++ [templateLine artifact.code] ++
          trailer) ∧
      (text style artifact refs table).toList.splitOn '\n' =
        (headerLines style.runtimeModule (importsOf refs table)).map String.toList ++
          ((templateLine artifact.code).toList.splitOn '\n' ++ trailer.map String.toList) := by
  obtain ⟨trailer, htrailer, hlines⟩ := exists_trailer style artifact (importsOf refs table)
  have hheader : ∀ line ∈ headerLines style.runtimeModule (importsOf refs table), OneLine line :=
    fun line hline => oneLine_of_mem_headerLines hline
  have hcomment : ∀ line ∈ trailer, OneLine line := by
    rcases htrailer with rfl | ⟨map, rfl⟩
    · exact fun _ hline => absurd hline List.not_mem_nil
    · rw [List.forall_mem_singleton]
      exact oneLine_mapLine map
  refine ⟨trailer, htrailer, by rw [text, hlines], ?_⟩
  rw [text, hlines, splitOn_intercalate (by simp), List.flatMap_append, List.flatMap_append,
    List.flatMap_singleton, flatMap_splitOn_of_oneLine hheader,
    flatMap_splitOn_of_oneLine hcomment, List.append_assoc]

/-- The lines of a module are read back as what it imports and registers. -/
theorem readHeader?_text
    {style : Style} {refs : References} {table : ExtensionTable} {rest : List (List Char)}
    {text : String}
    (h : text.toList.splitOn '\n' =
      (headerLines style.runtimeModule (importsOf refs table)).map String.toList ++ rest) :
    readHeader? (text.toList.splitOn '\n') =
      some ((importsOf refs table).header style.runtimeModule, rest) := by
  rw [h]
  exact readHeader?_headerLines style.runtimeModule (fun i hi => (binding_spec hi).1) rest

theorem newline_notMem_export : '\n' ∉ "export default Handlebars.template(".toList := by
  decide +kernel

/-- The lines of a module are read back up to the line of its template, whatever the names, the
specifiers and the template hold. -/
theorem text_readsBack
    (style : Style) (artifact : Artifact) (refs : References) (table : ExtensionTable) :
    ∃ header first rest,
      readHeader? ((text style artifact refs table).toList.splitOn '\n') =
        some (header, first :: rest) ∧
      "export default Handlebars.template(".toList <+: first ∧
      header.Of style refs table := by
  obtain ⟨trailer, -, -, hsplit⟩ := exists_splitOn_text style artifact refs table
  obtain ⟨first, later, hfirst, hprefix⟩ :=
    exists_splitOn_append newline_notMem_export (artifact.code ++ ");").toList
  rw [toList_templateLine, hfirst] at hsplit
  exact ⟨_, first, _, readHeader?_text hsplit, hprefix, header_of_importsOf style refs table⟩

end Module
end TemplateModules
