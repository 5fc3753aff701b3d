import Mathlib.Tactic.Common
import TemplateModules.Proofs.Module.Header
import TemplateModules.Proofs.Spec.Mapped
import TemplateModules.Proofs.SourceMap.Object

/-!
# Source maps inside modules

The last line of a module holds the source map of its template, moved down by the lines in front of
the template.  Read back, it leads from where the statements stand in the module to their tags in
the source.
-/

namespace TemplateModules

open Text

/-! ## Reading the source map of a module -/

namespace Module

/-- The last line of a text. -/
def lastLine (text : List Char) : List Char :=
  (text.reverse.takeWhile (· ≠ '\n')).reverse

/-- The value of the source map in the last line of a module. -/
def inlineMap? (text : String) : Option Json := do
  let encoded ← after? mapMark.toList (lastLine text.toList)
  let map ← unbase64Text? (String.ofList encoded)
  Json.read? map

theorem lastLine_append (before : List Char) {line : List Char} (h : '\n' ∉ line) :
    lastLine (before ++ '\n' :: line) = line := by
  have hline : ∀ c ∈ line.reverse, decide (c ≠ '\n') = true := by
    intro c hc
    rw [decide_eq_true_eq]
    rintro rfl
    exact h (List.mem_reverse.mp hc)
  have hreverse : (before ++ '\n' :: line).reverse =
      line.reverse ++ '\n' :: before.reverse := by
    simp
  rw [lastLine, hreverse, List.takeWhile_append_of_pos hline]
  simp

/-- The source map in the last line of a text is the one that is written there. -/
theorem inlineMap?_append (before map : String) :
    inlineMap? (before ++ "\n" ++ mapLine map) = Json.read? map := by
  have hlast : lastLine (before ++ "\n" ++ mapLine map).toList = (mapLine map).toList := by
    rw [String.toList_append, String.toList_append, List.append_assoc]
    exact lastLine_append _ (oneLine_mapLine map)
  rw [inlineMap?, hlast, toList_mapLine, after?_append]
  simp only [Option.bind_eq_bind, Option.bind_some, String.ofList_toList, unbase64Text?_base64Text]

end Module
/-! ## The code of a template -/

namespace Spec

open SourceMap Template

/-- The code of a template up to the first statement. -/
def codeStart (strict : Bool) : String :=
  Layout.heading ++ Function.opening strict

theorem linesText_concat (lines : List String) (last : String) :
    linesText (lines ++ [last]) = linesText lines ++ last ++ "\n" := by
  rw [linesText_append, linesText_cons, linesText_nil, String.append_empty, String.append_assoc]

/-- Statements start on lines of their own, below the first one. -/
theorem after_codeStart (strict : Bool) :
    0 < (Place.after (codeStart strict).toList).line ∧
      (Place.after (codeStart strict).toList).column = 0 := by
  obtain ⟨lines, last, hlines⟩ : ∃ lines last, preamble strict = lines ++ [last] :=
    ⟨[variablesLine, lookupPropertyLine], _, rfl⟩
  have hend : codeStart strict =
      Layout.heading ++ (signature ++ "\n") ++ linesText lines ++ last ++ "\n" := by
    rw [codeStart, Function.opening, hlines, linesText_concat]
    simp only [String.append_assoc]
  have hnewline : "\n".toList = ['\n'] := rfl
  rw [hend, String.toList_append, hnewline, Place.after_concat, Place.step, if_pos rfl]
  exact ⟨Nat.succ_pos _, rfl⟩

/-- The statements follow the start of the code, line by line. -/
theorem exists_toList_code (strict : Bool) (layout : Layout) (before tail : String) :
    ∃ rest, (before ++ layout.code strict ++ tail).toList =
      (before ++ codeStart strict).toList ++ layout.main.lines.flatMap lineText ++ rest := by
  have hlines : ∀ lines : List (Line SectionRef),
      (linesText (lines.map ("  " ++ ·.statement))).toList = lines.flatMap lineText := by
    intro lines
    induction lines with
    | nil => rfl
    | cons line lines ih =>
        rw [List.flatMap_cons, ← ih]
        simp [linesText_cons, lineText, indent, Line.statement]
  refine ⟨(closingLines ++ childrenText strict 1 layout.children ++ layout.flagsText ++
    "\x7d" ++ tail).toList, ?_⟩
  rw [← hlines]
  simp [Layout.code, Function.code, codeStart]

theorem mappings_sourceMap (options : Options) (source : String) (layout : Layout) :
    (sourceMap options source layout).mappings =
      lineMappings (codeStart options.strict).toList layout.main.lines := by
  have hplace : ∀ b : Builder, b.place = { line := 0, column := 0 } →
      (b.advance (codeStart options.strict)).place =
        Place.after (codeStart options.strict).toList := by
    intro b hb
    rw [Builder.place_advance, hb, Place.after]
  rw [sourceMap, ← codeStart, mappings_mapLines (hplace _ rfl), Builder.mappings_advance]
  rfl

/-- The mappings of a template are written, and are read back as segments of its code. -/
theorem exists_mappingsText?
    (options : Options) (source : String) {layout : Layout}
    (hnear : ∀ line ∈ layout.main.lines, ∀ tag ∈ line.tag?, Near tag) :
    ∃ mappings, (sourceMap options source layout).mappingsText? = some mappings ∧
      decode? .start mappings.toList =
        some ((lineMappings (codeStart options.strict).toList layout.main.lines).map
          Mapping.segment) := by
  obtain ⟨-, hcolumn⟩ := after_codeStart options.strict
  have hstart : Previous.start.Small := by
    constructor <;> decide
  have hsmall : ∀ m ∈ lineMappings (codeStart options.strict).toList layout.main.lines,
      m.Small := fun m hm => small_of_mem_lineMappings hcolumn hnear hm
  have hascending : Ascending Previous.start.generatedLine
      (lineMappings (codeStart options.strict).toList layout.main.lines) :=
    ascending_lineMappings (Nat.zero_le _)
  obtain ⟨text, htext, -, hdecode⟩ := exists_encode? hstart hsmall hascending false
  refine ⟨String.ofList text, ?_, ?_⟩
  · rw [Builder.mappingsText?, mappings_sourceMap, htext]
    rfl
  · rw [String.toList_ofList]
    exact hdecode

end Spec

/-! ## The text of a module -/

namespace Module

open SourceMap Spec Template

theorem intercalate_concat (lines : List String) (last : String) :
    "\n".intercalate (lines ++ [last]) = linesText lines ++ last := by
  induction lines with
  | nil => simp [linesText_nil]
  | cons line lines ih =>
      rw [List.cons_append, String.intercalate_cons_of_ne_nil (by simp), ih]
      simp only [linesText_cons, String.append_assoc]

theorem shiftMap?_toJson (b : Builder) (lines : Nat) (mappings : String) :
    shiftMap? lines (b.toJson mappings).write =
      some (b.toJson (String.ofList (List.replicate lines ';') ++ mappings)).write := by
  rw [shiftMap?, b.read?_toJson, Option.map_some, b.shiftMappings_toJson]

/-- What stands in front of the code on the line of a template. -/
def exportStart : String := "export default " ++ runtimeName ++ ".template("

/-- What a module holds in front of the code of its template. -/
def codeLead (runtimeModule : String) (imports : Imports) : String :=
  linesText (headerLines runtimeModule imports) ++ exportStart

/-- As many lines stand in front of a template as a module has header lines. -/
theorem line_after_codeLead
    (runtimeModule : String) (refs : References) (table : ExtensionTable) :
    (Place.after (codeLead runtimeModule (importsOf refs table)).toList).line =
      (headerLines runtimeModule (importsOf refs table)).length := by
  have hexport : OneLine exportStart := by decide
  rw [codeLead, String.toList_append, Place.after_append, Place.past_of_notMem _ hexport,
    after_linesText fun line hline => oneLine_of_mem_headerLines hline]

/-- A module with a source map has its code behind the lead and its map in the last line. -/
theorem text_eq
    {style : Style} {artifact : Artifact} {map moved : String}
    (refs : References) (table : ExtensionTable) (hinline : style.inlineSourceMap = true)
    (hmap : artifact.map = some map)
    (hmoved : shiftMap? (headerLines style.runtimeModule (importsOf refs table)).length map =
      some moved) :
    text style artifact refs table =
      codeLead style.runtimeModule (importsOf refs table) ++ artifact.code ++ ");" ++ "\n" ++
        mapLine moved := by
  have hlines : lines style artifact (importsOf refs table) =
      headerLines style.runtimeModule (importsOf refs table) ++
        [templateLine artifact.code] ++ [mapLine moved] := by
    simp [lines, hinline, hmap, hmoved]
  have htemplate : templateLine artifact.code = exportStart ++ artifact.code ++ ");" := rfl
  rw [text, hlines, intercalate_concat, linesText_concat, htemplate, codeLead]
  simp only [String.append_assoc]

/-- What a module says about its template in the source map that it ends with: the map of the
template with other mappings, whose segments lead from the statements in the module to the tags. -/
structure Traced
    (options : Options) (program : Program) (source before : String)
    (own : Fields Json) (segments : List Segment) (module : String) : Prop where
  /-- The map in the last line differs from the one of the template in its mappings only. -/
  exists_inlineMap : ∃ (trailer : Fields Json) (mappings : String),
    inlineMap? module = some (.object trailer) ∧
    (∀ key, key ≠ "mappings" → Fields.get? trailer key = Fields.get? own key) ∧
    Fields.get? trailer "mappings" = some (.text mappings) ∧
    decode? .start mappings.toList = some segments
  /-- Each tag has its line behind the start of the module, and one segment for this line. -/
  exists_mapped : ∃ body rest,
    module.toList = before.toList ++ body ++ rest ∧
    Mapped options [program.blockParams] source.toList before.toList program.body body segments

/-- The map in the last line of a text has the fields of the map that it is moved down from, and its
segments lie as many lines further down. -/
theorem exists_inlineMap_of_moved
    {b : Builder} {lines : Nat} {mappings module : String} {segments : List Segment}
    (before : String)
    (hmodule : module = before ++ "\n" ++
      mapLine (b.toJson (String.ofList (List.replicate lines ';') ++ mappings)).write)
    (hdecode : decode? .start mappings.toList = some segments) :
    ∃ (trailer : Fields Json) (moved : String),
      inlineMap? module = some (.object trailer) ∧
      (∀ key, key ≠ "mappings" → Fields.get? trailer key =
        Fields.get? (b.ownFields ++ [("mappings", .text mappings)]) key) ∧
      Fields.get? trailer "mappings" = some (.text moved) ∧
      decode? .start moved.toList = some (segments.map (Segment.lowered lines)) := by
  let moved := String.ofList (List.replicate lines ';') ++ mappings
  refine ⟨b.ownFields ++ [("mappings", .text moved)], moved, ?_, ?_, ?_, ?_⟩
  · rw [hmodule, inlineMap?_append, b.read?_toJson, Builder.toJson_eq]
  · intro key hkey
    rw [Fields.get?_concat_of_ne hkey, Fields.get?_concat_of_ne hkey]
  · rw [Fields.get?_append_of_notMem b.mappings_notMem_ownFields]
    rfl
  · rw [String.toList_append, String.toList_ofList, decode?_shifted, hdecode, Option.map_some]

/-- The source map in a module leads from the statements of its template to their tags. -/
theorem text_traced
    {options : Options} {source : String} {program : Program} {artifact : Artifact} {style : Style}
    (refs : References) (table : ExtensionTable)
    (hparse : parse source = .ok program)
    (hartifact : (precompile options source).result = .ok artifact)
    (hmap : options.sourceMap = true) (hinline : style.inlineSourceMap = true)
    (hnear : ∀ s ∈ program.body, ∀ span ∈ s.span?, Near span) :
    ∃ map own segments,
      artifact.map = some map ∧
      Json.read? map = some (.object own) ∧
      Traced options program source
        (codeLead style.runtimeModule (importsOf refs table) ++ codeStart options.strict)
        own segments (text style artifact refs table) := by
  obtain ⟨lines, hlines, rfl⟩ := exists_lines_of_precompile hparse hartifact
  let layout := (Section.mk program.blockParams lines).layout
  let b := sourceMap options source layout
  let header := headerLines style.runtimeModule (importsOf refs table)
  have htags : ∀ line ∈ layout.main.lines, ∀ tag ∈ line.tag?, Near tag := by
    intro line hline tag htag
    obtain ⟨s, hs, hspan⟩ := exists_span_of_tag hlines hline htag
    exact hnear s hs tag hspan
  obtain ⟨mappings, hwritten, hdecode⟩ := exists_mappingsText? options source htags
  have hown : (artifact options source (.mk program.blockParams lines)).map =
      some (b.toJson mappings).write := by
    simp [artifact, hmap, Builder.text?, b, layout, hwritten]
  have hread : Json.read? (b.toJson mappings).write =
      some (.object (b.ownFields ++ [("mappings", .text mappings)])) := by
    rw [b.read?_toJson, Builder.toJson_eq]
  have htext := text_eq refs table hinline hown (shiftMap?_toJson b header.length mappings)
  refine ⟨_, _, _, hown, hread, exists_inlineMap_of_moved _ htext hdecode, ?_⟩
  have hmapped := mapped_of_compileLines
    (codeLead style.runtimeModule (importsOf refs table)).toList
    (fun s hs span hspan => wellPlaced_of_parse hparse hs hspan) hlines 1
    (after_codeStart options.strict).1
  rw [line_after_codeLead, ← String.toList_append] at hmapped
  obtain ⟨rest, hrest⟩ := exists_toList_code options.strict layout
    (codeLead style.runtimeModule (importsOf refs table)) (");" ++ ("\n" ++ mapLine _))
  refine ⟨layout.main.lines.flatMap lineText, rest, ?_, ?_⟩
  · rw [htext, String.append_assoc, String.append_assoc]
    exact hrest
  · rw [List.map_map]
    exact hmapped

/-- A template with tags of all kinds on several lines. -/
def letter : String :=
  "Dear \x7b\x7bname\x7d\x7d,\n\x7b\x7b#if late\x7d\x7d\n  sorry\n\x7b\x7b/if\x7d\x7d\n" ++
    "\x7b\x7b! the end \x7d\x7d\x7b\x7b> greeting\x7d\x7d"

/-- Options that ask for a source map. -/
def mapOptions : Options where
  srcName := some "letter.hbs"
  knownHelpers := []
  knownHelpersOnly := false
  extra := [("sourceMap", .bool true)]

/-- A table with a module for the helper and for the partial of the letter. -/
def letterTable : ExtensionTable where
  helpers := [("name", "./name.js")]
  partials := [("greeting", "./greeting.js")]

/-- Modules with a source map at their end. -/
def mapStyle : Style where
  runtimeModule := "handlebars/runtime"
  inlineSourceMap := true

/-- The letter is traced through a module that imports a helper and a partial. -/
theorem letter_traced :
    ∃ program artifact,
      parse letter = .ok program ∧
      (precompile mapOptions letter).result = .ok artifact ∧
      mapOptions.sourceMap = true ∧ mapStyle.inlineSourceMap = true ∧
      (∀ s ∈ program.body, ∀ span ∈ s.span?, Near span) ∧
      ∃ map own segments,
        artifact.map = some map ∧
        Json.read? map = some (.object own) ∧
        Traced mapOptions program letter
          (codeLead mapStyle.runtimeModule (importsOf ⟨["name"], ["greeting"]⟩ letterTable) ++
            codeStart mapOptions.strict)
          own segments (text mapStyle artifact ⟨["name"], ["greeting"]⟩ letterTable) := by
  have hok : (precompile mapOptions letter).result.isOk = true := by decide +kernel
  obtain ⟨artifact, hartifact⟩ := exists_ok_of_isOk hok
  obtain ⟨program, -, hparse, -⟩ := exists_section_of_precompile hartifact
  have hmap : mapOptions.sourceMap = true := by decide +kernel
  have hinline : mapStyle.inlineSourceMap = true := rfl
  have hlength : letter.length < positionLimit := by decide +kernel
  have hnear : ∀ s ∈ program.body, ∀ span ∈ s.span?, Near span :=
    fun s hs span hspan => near_of_parse hlength hparse hs hspan
  have htraced := text_traced ⟨["name"], ["greeting"]⟩ letterTable hparse hartifact hmap hinline
    hnear
  exact ⟨program, artifact, hparse, hartifact, hmap, hinline, hnear, htraced⟩

end Module
end TemplateModules
