import Mathlib.Data.List.Forall2
import TemplateModules.CommandLine.Console
import TemplateModules.Proofs.CommandLine.Inputs
import TemplateModules.Proofs.Except
import TemplateModules.Proofs.Files.Disk
import TemplateModules.Proofs.Json.RoundTrip
import TemplateModules.Proofs.Loading.FixedFiles

/-!
# What a run changes

A run loads each input all alone, and then it either prints the results or writes the modules.  The
modules are written in the order of the inputs, so that of two modules with outputs at one place the
later one stays.
-/

namespace TemplateModules

namespace Loading
namespace Outcome

/-- What a load gives, if it ends with something. -/
def output? : Outcome → Option LoadOutput
  | loaded _ output => some output
  | failed _ _ => none
  | skipped _ => none

/-- The module that a load gives. -/
def moduleText? (o : Outcome) : Option String :=
  o.output?.bind LoadOutput.moduleText?

end Outcome
end Loading

namespace CommandLine

open Loading (Outcome)

/-! ## Actions -/

namespace Action

/-- The line that an action prints. -/
def line? : Action → Option String
  | write _ _ => none
  | print line => some line

/-- The text that an action writes to a location. -/
def textAt? (here location : Location) : Action → Option String
  | write path text => if location = path.place here then some text else none
  | print _ => none

end Action

/-- An action has been taken: a location holds what the action writes to it, or what it held. -/
structure Taken (here : Location) (action : Action) (c c' : Console) : Prop where
  lines : c'.lines = c.lines ++ action.line?.toList
  lookup : ∀ location,
    c'.disk.files.lookup location =
      ((action.textAt? here location).map FileContents.text).or (c.disk.files.lookup location)

section Actions

variable {here location : Location} {actions : List Action} {c c' : Console}

theorem taken_of_write {path : FilePath} {text : String} {disk : Disk}
    (h : c.disk.write here path (.text text) = .ok disk) :
    Taken here (.write path text) c { c with disk } where
  lines := (List.append_nil _).symm
  lookup location := by
    rw [Disk.lookup_write h, Action.textAt?]
    split
    · rfl
    · rfl

theorem taken_print (here : Location) (line : String) (c : Console) :
    Taken here (.print line) c { c with lines := c.lines ++ [line] } where
  lines := rfl
  lookup _ := rfl

theorem perform_of_error {path : FilePath} {text : String} {e : FileError}
    (h : c.disk.write here path (.text text) = .error e) :
    (perform (Console.write here) Console.print (.write path text :: actions)).run c =
      (some e, c) := by
  have hwrite : (Console.write here path text).run c = (.error e, c) := by
    simp only [Console.write, StateT.run, h]
  rw [perform, StateT.run_bind, hwrite]
  rfl

theorem perform_of_ok {path : FilePath} {text : String} {disk : Disk}
    (h : c.disk.write here path (.text text) = .ok disk) :
    (perform (Console.write here) Console.print (.write path text :: actions)).run c =
      (perform (Console.write here) Console.print actions).run { c with disk } := by
  have hwrite : (Console.write here path text).run c = (.ok (), { c with disk }) := by
    simp only [Console.write, StateT.run, h]
  rw [perform, StateT.run_bind, hwrite]
  rfl

/-- If all of some actions are taken, then the first one is, and after it the others are. -/
theorem exists_taken {action : Action}
    (h : (perform (Console.write here) Console.print (action :: actions)).run c = (none, c')) :
    ∃ mid,
      Taken here action c mid ∧
      (perform (Console.write here) Console.print actions).run mid = (none, c') := by
  cases action with
  | print line => exact ⟨_, taken_print here line c, h⟩
  | write path text =>
      cases hwrite : c.disk.write here path (.text text) with
      | error e =>
          rw [perform_of_error hwrite] at h
          cases h
      | ok disk =>
          rw [perform_of_ok hwrite] at h
          exact ⟨_, taken_of_write hwrite, h⟩

theorem lines_of_perform
    (h : (perform (Console.write here) Console.print actions).run c = (none, c')) :
    c'.lines = c.lines ++ actions.filterMap Action.line? := by
  induction actions generalizing c with
  | nil =>
      obtain ⟨-, rfl⟩ := Prod.mk.inj h
      exact (List.append_nil _).symm
  | cons action actions ih =>
      obtain ⟨mid, htaken, hrest⟩ := exists_taken h
      rw [ih hrest, htaken.lines, List.append_assoc]
      cases hline : action.line? with
      | none => rw [List.filterMap_cons_none hline]; rfl
      | some line => rw [List.filterMap_cons_some hline]; rfl

/-- A location to which no action writes holds what it held. -/
theorem lookup_of_perform_of_none
    (h : (perform (Console.write here) Console.print actions).run c = (none, c'))
    (hnone : ∀ action ∈ actions, action.textAt? here location = none) :
    c'.disk.files.lookup location = c.disk.files.lookup location := by
  induction actions generalizing c with
  | nil =>
      obtain ⟨-, rfl⟩ := Prod.mk.inj h
      rfl
  | cons action actions ih =>
      obtain ⟨mid, htaken, hrest⟩ := exists_taken h
      rw [ih hrest fun a ha => hnone a (List.mem_cons_of_mem _ ha), htaken.lookup,
        hnone action List.mem_cons_self]
      rfl

/-- A location holds what the last action that writes to it has written. -/
theorem lookup_of_perform_of_last {before after : List Action} {action : Action} {text : String}
    (h : (perform (Console.write here) Console.print (before ++ action :: after)).run c =
      (none, c'))
    (htext : action.textAt? here location = some text)
    (hafter : ∀ later ∈ after, later.textAt? here location = none) :
    c'.disk.files.lookup location = some (.text text) := by
  induction before generalizing c with
  | nil =>
      obtain ⟨mid, htaken, hrest⟩ := exists_taken h
      rw [lookup_of_perform_of_none hrest hafter, htaken.lookup, htext]
      rfl
  | cons first before ih =>
      obtain ⟨mid, -, hrest⟩ := exists_taken h
      exact ih hrest

/-- Printing changes no disk and cannot fail. -/
theorem perform_print (here : Location) (lines : List String) (c : Console) :
    (perform (Console.write here) Console.print (lines.map .print)).run c =
      (none, { c with lines := c.lines ++ lines }) := by
  induction lines generalizing c with
  | nil =>
      rw [List.append_nil]
      rfl
  | cons line lines ih =>
      have hrest := ih { c with lines := c.lines ++ [line] }
      rw [List.append_assoc] at hrest
      exact hrest

end Actions

/-! ## Outcomes -/

/-- Each path is loaded by itself. -/
theorem run_loadPaths (h : Host Id) (config : Config) (paths : List FilePath) :
    Id.run (loadPaths h config paths) = paths.map fun path => Id.run (loadPath h config path) := by
  induction paths with
  | nil => rfl
  | cons path paths ih =>
      rw [List.map_cons, ← ih]
      rfl

namespace Job

/-- The outcome of loading an input all alone from a disk. -/
def outcome (j : Job) (disk : Disk) (directory : FilePath) (input : Input) : Outcome :=
  Id.run (loadPath (diskHost disk directory) j.config input.path)

/-- The place of the module of an input. -/
def target (j : Job) (directory : FilePath) (input : Input) : Location :=
  (outputPath j.arguments.outDir input).place (locationOf directory)

section

variable {j : Job} {disk : Disk} {directory : FilePath} {input : Input}

theorem outcome_eq (j : Job) (disk : Disk) (directory : FilePath) (input : Input) :
    j.outcome disk directory input =
      if j.config.filter.accepts input.path then
        outcomeOf j.config input.path (disk.read (locationOf directory) input.path)
      else .skipped input.path := by
  unfold outcome loadPath
  split
  · rfl
  · rfl

/-- Of the disk, only the file at the path of an input matters. -/
theorem outcome_congr {disk' : Disk}
    (h : disk'.read (locationOf directory) input.path =
      disk.read (locationOf directory) input.path) :
    j.outcome disk' directory input = j.outcome disk directory input := by
  rw [outcome_eq, outcome_eq, h]

theorem path_ofResult (path : FilePath) (result : Loading.LoadResult) :
    (Outcome.ofResult path result).path = path := by
  cases result with
  | error failure => rfl
  | ok output => rfl

theorem path_outcome (j : Job) (disk : Disk) (directory : FilePath) (input : Input) :
    (j.outcome disk directory input).path = input.path := by
  rw [outcome_eq]
  split
  · exact path_ofResult _ _
  · rfl

/-- An input that fails has one message. -/
theorem exists_messages_outcome (hanswer : (j.outcome disk directory input).isCrash = false)
    (hfailed : (j.outcome disk directory input).hasFailed = true) :
    ∃ text, (j.outcome disk directory input).messages = [text] := by
  rw [outcome_eq] at hanswer hfailed ⊢
  split at hfailed
  · next haccepts =>
      rw [if_pos haccepts] at hanswer ⊢
      cases hread : disk.read (locationOf directory) input.path with
      | error e => exact ⟨e.message, rfl⟩
      | ok source =>
          rw [hread] at hanswer hfailed
          simp only [outcomeOf] at hanswer hfailed ⊢
          cases hbuild : Loading.build j.config input.path source with
          | ok output =>
              rw [hbuild] at hfailed
              exact Loading.errorTexts_of_build hbuild hfailed
          | error failure =>
              rw [hbuild] at hanswer
              cases failure with
              | file e => exact ⟨e.message, rfl⟩
              | crashed => cases hanswer
  · cases hfailed

end

/-- The outcomes of a run are those of loads all alone. -/
theorem loadPaths_eq (j : Job) (disk : Disk) (directory : FilePath) (inputs : List Input) :
    Id.run (loadPaths (diskHost disk directory) j.config (inputs.map Input.path)) =
      inputs.map (j.outcome disk directory) := by
  rw [run_loadPaths, List.map_map]
  rfl

/-- What is done for an input. -/
def actionsOf (j : Job) (disk : Disk) (directory : FilePath) (input : Input) : List Action :=
  if j.arguments.json then
    ((j.outcome disk directory input).output?.map
      fun output => Action.print (resultLine input.path output)).toList
  else
    ((j.outcome disk directory input).moduleText?.map
      fun text => Action.write (outputPath j.arguments.outDir input) text).toList

/-- What is done for the outcome of an input whose output is planned. -/
theorem actionsFor_outcome {j : Job} {input : Input} (disk : Disk) (directory : FilePath)
    (hplan : j.plan.get? input.path = some (outputPath j.arguments.outDir input)) :
    j.actionsFor (j.outcome disk directory input) = j.actionsOf disk directory input := by
  have hpath := j.path_outcome disk directory input
  rw [actionsOf]
  cases houtcome : j.outcome disk directory input with
  | loaded path output =>
      rw [houtcome] at hpath
      obtain rfl : path = input.path := hpath
      rw [actionsFor]
      split
      · rfl
      · rw [hplan]
        cases output with
        | contents text => rfl
        | errors texts => rfl
  | failed path failure => split <;> rfl
  | skipped path => split <;> rfl

end Job

/-! ## Runs -/

section Runs

variable {disk : Disk} {directory : FilePath} {texts : List String} {a : Arguments} {job : Job}

theorem prepare_eq (disk : Disk) (directory : FilePath) (a : Arguments) :
    Id.run (prepare (diskHost disk directory) a) =
      (Id.run (loadConfig (diskHost disk directory) a)).bind fun c =>
        (Id.run (findInputs (diskHost disk directory) a c)).bind fun inputs =>
          makeJob a c inputs := by
  simp only [prepare, Id.run, bind, pure]
  cases loadConfig (diskHost disk directory) a with
  | error e => rfl
  | ok c =>
      dsimp only [Except.bind]
      cases findInputs (diskHost disk directory) a c with
      | error e => rfl
      | ok inputs => rfl

/-- What a job is made of. -/
theorem exists_of_prepare (h : Id.run (prepare (diskHost disk directory) a) = .ok job) :
    job.arguments = a ∧
      Id.run (loadConfig (diskHost disk directory) a) = .ok job.config ∧
      Id.run (findInputs (diskHost disk directory) a job.config) = .ok job.inputs ∧
      planOutputs a job.inputs = .ok job.plan := by
  rw [prepare_eq] at h
  obtain ⟨c, hconfig, h⟩ := bind_eq_ok.mp h
  obtain ⟨inputs, hinputs, h⟩ := bind_eq_ok.mp h
  unfold makeJob at h
  split at h
  · cases h
  · obtain ⟨plan, hplan, rfl⟩ := map_eq_ok.mp h
    exact ⟨rfl, hconfig, hinputs, mapError_eq_ok.mp hplan⟩

/-- The inputs of a job are in the order of their paths. -/
theorem pairwise_of_prepare (h : Id.run (prepare (diskHost disk directory) a) = .ok job) :
    job.inputs.Pairwise Input.Before := by
  obtain ⟨-, -, hinputs, -⟩ := exists_of_prepare h
  obtain ⟨patterns, -, hinputs⟩ := map_eq_ok.mp (mapError_eq_ok.mp hinputs)
  rw [← hinputs]
  exact Input.pairwise_arrange _

/-- Printing results in JSON does not change what is compiled. -/
theorem prepare_json {job' : Job} {json : Bool}
    (h : Id.run (prepare (diskHost disk directory) a) = .ok job)
    (h' : Id.run (prepare (diskHost disk directory) { a with json }) = .ok job') :
    job'.config = job.config ∧ job'.inputs = job.inputs := by
  obtain ⟨-, hconfig, hinputs, -⟩ := exists_of_prepare h
  obtain ⟨-, hconfig', hinputs', -⟩ := exists_of_prepare h'
  have hsame : job'.config = job.config := Except.ok.inj (hconfig'.symm.trans hconfig)
  rw [hsame] at hinputs'
  exact ⟨hsame, Except.ok.inj (hinputs'.symm.trans hinputs)⟩

/-- What is done for the outcomes of a job is what is done for each of its inputs. -/
theorem flatMap_actionsFor (h : Id.run (prepare (diskHost disk directory) a) = .ok job) :
    (job.inputs.map (job.outcome disk directory)).flatMap job.actionsFor =
      job.inputs.flatMap (job.actionsOf disk directory) := by
  obtain ⟨harguments, -, -, hplan⟩ := exists_of_prepare h
  have hactions : ∀ i ∈ job.inputs,
      job.actionsFor (job.outcome disk directory i) = job.actionsOf disk directory i := by
    intro i hi
    apply Job.actionsFor_outcome
    rw [harguments]
    exact get?_of_planFrom hplan (pairwise_of_prepare h) hi
  rw [List.flatMap_map, List.flatMap_def, List.flatMap_def, List.map_congr_left hactions]

/-- The first write of a run that fails. -/
def failedWrite? (disk : Disk) (directory : FilePath) (texts : List String) : Option FileError :=
  ((perform (Console.write (locationOf directory)) Console.print
    (Id.run (report (diskHost disk directory) texts)).actions).run { disk, lines := [] }).1

/-- A run compiles the inputs of a job, and neither a template nor a write stops it. -/
structure Completes (disk : Disk) (directory : FilePath) (texts : List String) (a : Arguments)
    (job : Job) : Prop where
  parsed : Arguments.parse texts = .ok a
  compiles : a.init = false
  once : a.watch = false
  prepared : Id.run (prepare (diskHost disk directory) a) = .ok job
  answers : ∀ i ∈ job.inputs, (job.outcome disk directory i).isCrash = false
  writes : failedWrite? disk directory texts = none

/-- The report of a run that loads the inputs of a job. -/
theorem report_of_prepare (hparsed : Arguments.parse texts = .ok a) (hinit : a.init = false)
    (hjob : Id.run (prepare (diskHost disk directory) a) = .ok job) :
    Id.run (report (diskHost disk directory) texts) =
      job.report (job.inputs.map (job.outcome disk directory)) := by
  have hprepared : prepare (diskHost disk directory) a = (.ok job : Except RunError Job) := hjob
  have houtcomes := job.loadPaths_eq disk directory job.inputs
  rw [← houtcomes]
  simp only [report, hparsed, reportFor, hinit, Bool.false_eq_true, if_false, Id.run, bind,
    hprepared]
  rfl

theorem report_of_answers {j : Job} {outcomes : List Outcome}
    (h : ∀ o ∈ outcomes, o.isCrash = false) :
    j.report outcomes =
      { actions := outcomes.flatMap j.actionsFor
        complaints := (Loading.diagnosticsOf outcomes).map Loading.Diagnostic.line
        exitCode := if (Loading.diagnosticsOf outcomes).isEmpty then 0 else 1 } := by
  have hnone : ¬outcomes.any Outcome.isCrash = true := by
    rw [List.any_eq_true]
    rintro ⟨o, ho, hcrash⟩
    rw [h o ho] at hcrash
    cases hcrash
  rw [Job.report, if_neg hnone]

namespace Completes

variable (h : Completes disk directory texts a job)

include h

theorem actions_eq :
    (Id.run (report (diskHost disk directory) texts)).actions =
      job.inputs.flatMap (job.actionsOf disk directory) := by
  rw [report_of_prepare h.parsed h.compiles h.prepared,
    report_of_answers (by simpa using h.answers), flatMap_actionsFor h.prepared]

/-- All actions are taken, and the run ends as it reports. -/
theorem exists_console :
    ∃ console : Console,
      (perform (Console.write (locationOf directory)) Console.print
        (job.inputs.flatMap (job.actionsOf disk directory))).run { disk, lines := [] } =
          (none, console) ∧
      (run disk directory texts).lines = console.lines ∧
      (run disk directory texts).disk = console.disk ∧
      (run disk directory texts).complaints =
        (Id.run (report (diskHost disk directory) texts)).complaints ∧
      (run disk directory texts).exitCode =
        (Id.run (report (diskHost disk directory) texts)).exitCode := by
  have hwrites := h.writes
  unfold failedWrite? at hwrites
  rw [← h.actions_eq]
  dsimp only [run]
  generalize (perform (Console.write (locationOf directory)) Console.print
    (Id.run (report (diskHost disk directory) texts)).actions).run { disk, lines := [] } = result
    at hwrites ⊢
  obtain ⟨stopped, console⟩ := result
  obtain rfl : stopped = none := hwrites
  exact ⟨console, rfl, rfl, rfl, rfl, rfl⟩

theorem lines_eq :
    (run disk directory texts).lines =
      (job.inputs.flatMap (job.actionsOf disk directory)).filterMap Action.line? := by
  obtain ⟨console, hperform, hlines, -⟩ := h.exists_console
  rw [hlines, lines_of_perform hperform]
  rfl

/-- A location to which nothing is written holds what it held. -/
theorem lookup_of_none {location : Location}
    (hnone : ∀ i ∈ job.inputs, ∀ action ∈ job.actionsOf disk directory i,
      action.textAt? (locationOf directory) location = none) :
    (run disk directory texts).disk.files.lookup location = disk.files.lookup location := by
  obtain ⟨console, hperform, -, hdisk, -⟩ := h.exists_console
  rw [hdisk]
  apply lookup_of_perform_of_none hperform
  intro action haction
  obtain ⟨i, hi, haction⟩ := List.mem_flatMap.mp haction
  exact hnone i hi action haction

end Completes

/-! ## Writing modules -/

namespace Job

variable {j : Job} {input : Input}

theorem actionsOf_write (hjson : j.arguments.json = false) :
    j.actionsOf disk directory input =
      ((j.outcome disk directory input).moduleText?.map
        fun text => Action.write (outputPath j.arguments.outDir input) text).toList := by
  rw [actionsOf, hjson]
  rfl

theorem actionsOf_print (hjson : j.arguments.json = true) :
    j.actionsOf disk directory input =
      ((j.outcome disk directory input).output?.map
        fun output => Action.print (resultLine input.path output)).toList := by
  rw [actionsOf, hjson]
  rfl

theorem flatMap_actionsOf_print (hjson : j.arguments.json = true) (inputs : List Input) :
    inputs.flatMap (j.actionsOf disk directory) =
      (inputs.filterMap fun i =>
        (j.outcome disk directory i).output?.map (resultLine i.path)).map .print := by
  induction inputs with
  | nil => rfl
  | cons i inputs ih =>
      rw [List.flatMap_cons, ih, actionsOf_print hjson]
      cases houtput : (j.outcome disk directory i).output? with
      | none => rw [List.filterMap_cons_none (by rw [houtput]; rfl)]; rfl
      | some output => rw [List.filterMap_cons_some (by rw [houtput]; rfl)]; rfl

/-- An action of an input writes its module, and that to the place of its output. -/
theorem textAt?_of_mem_actionsOf {action : Action} {location : Location}
    (hjson : j.arguments.json = false) (haction : action ∈ j.actionsOf disk directory input) :
    action.textAt? (locationOf directory) location =
      if location = j.target directory input then (j.outcome disk directory input).moduleText?
      else none := by
  rw [actionsOf_write hjson, Option.mem_toList, Option.map_eq_some_iff] at haction
  obtain ⟨text, htext, rfl⟩ := haction
  rw [htext]
  rfl

end Job

theorem isEmpty_diagnosticsOf {outcomes : List Outcome}
    (h : ∀ o ∈ outcomes, o.hasFailed = true → ∃ text, o.messages = [text]) :
    (Loading.diagnosticsOf outcomes).isEmpty = !outcomes.any Outcome.hasFailed := by
  have hlength := (Loading.forall₂_diagnosticsOf h).length_eq
  rw [Bool.eq_iff_iff, List.isEmpty_iff_length_eq_zero, ← hlength, List.length_eq_zero_iff,
    List.filter_eq_nil_iff]
  simp

/-- A run has written modules: a location holds the module of the last input whose output leads
there, if there is such an input, and otherwise what it held before. -/
structure WritesModules (job : Job) (disk : Disk) (directory : FilePath) (r : Finished) : Prop where
  lines : r.lines = []
  changed : ∀ location, r.disk.files.lookup location ≠ disk.files.lookup location →
    ∃ i ∈ job.inputs,
      location = job.target directory i ∧ (job.outcome disk directory i).moduleText? ≠ none
  holds : ∀ before i after text,
    job.inputs = before ++ i :: after →
    (job.outcome disk directory i).moduleText? = some text →
    (∀ k ∈ after, (job.outcome disk directory k).moduleText? ≠ none →
      job.target directory k ≠ job.target directory i) →
    r.disk.files.lookup (job.target directory i) = some (.text text)

/-- A line shows what the load of a path gives: it is one line, and read as JSON it is an object
with the path and with the text of the module, or with the texts of the errors. -/
structure ShowsResult (path : FilePath) (output : Loading.LoadOutput) (line : String) : Prop where
  oneLine : Text.OneLine line
  contents : ∀ text, output = .contents text →
    Json.read? line = some (.object [("path", .text path.text), ("contents", .text text)])
  errors : ∀ texts, output = .errors texts →
    Json.read? line = some (.object [("path", .text path.text),
      ("errors", .list (texts.map fun text => .object [("text", .text text)]))])

theorem plainItems_errors (depth : Nat) (texts : List String) :
    Json.PlainItems (depth + 1) (texts.map fun text => .object [("text", .text text)]) := by
  induction texts with
  | nil => trivial
  | cons text texts ih =>
      refine ⟨?_, ih⟩
      rw [Json.Plain]
      exact ⟨List.nodup_singleton _, trivial, trivial⟩

theorem plain_result (path : FilePath) (output : Loading.LoadOutput) :
    (Json.object (("path", .text path.text) :: output.fields)).Plain Written.maxDepth := by
  rw [Written.maxDepth, Json.Plain]
  cases output with
  | contents text => exact ⟨by simp [Loading.LoadOutput.fields], trivial, trivial, trivial⟩
  | errors texts =>
      refine ⟨by simp [Loading.LoadOutput.fields], trivial, ?_, trivial⟩
      rw [Json.Plain]
      exact plainItems_errors 124 texts

theorem showsResult_resultLine (path : FilePath) (output : Loading.LoadOutput) :
    ShowsResult path output (Job.resultLine path output) where
  oneLine := Written.oneLine_write _ _ (plain_result path output)
  contents := by
    rintro text rfl
    exact Json.read?_write (plain_result path (.contents text))
  errors := by
    rintro texts rfl
    exact Json.read?_write (plain_result path (.errors texts))

theorem forall₂_showsResult (job : Job) (disk : Disk) (directory : FilePath) :
    List.Forall₂ (fun result line => ShowsResult result.1 result.2 line)
      (job.inputs.filterMap fun i => (job.outcome disk directory i).output?.map (i.path, ·))
      (job.inputs.filterMap fun i =>
        (job.outcome disk directory i).output?.map (Job.resultLine i.path)) := by
  have hlines : (job.inputs.filterMap fun i =>
      (job.outcome disk directory i).output?.map (Job.resultLine i.path)) =
        (job.inputs.filterMap fun i =>
          (job.outcome disk directory i).output?.map (i.path, ·)).map
            fun result => Job.resultLine result.1 result.2 := by
    rw [List.map_filterMap]
    simp only [Option.map_map, Function.comp_def]
  rw [hlines, List.forall₂_map_right_iff, List.forall₂_same]
  exact fun result _ => showsResult_resultLine result.1 result.2

/-- A run has printed results: one line for each input whose load gives something. -/
structure PrintsResults (job : Job) (disk : Disk) (directory : FilePath) (r : Finished) : Prop where
  unchanged : r.disk = disk
  lines : r.lines = job.inputs.filterMap fun i =>
    (job.outcome disk directory i).output?.map (Job.resultLine i.path)
  /-- Each line shows the result of its input, in the order of the inputs. -/
  shown : List.Forall₂ (fun result line => ShowsResult result.1 result.2 line)
    (job.inputs.filterMap fun i => (job.outcome disk directory i).output?.map (i.path, ·)) r.lines

/-- A run has reported the inputs that failed: one line for each of them. -/
structure ReportsFailures (job : Job) (disk : Disk) (directory : FilePath) (r : Finished) :
    Prop where
  exitCode :
    r.exitCode = if job.inputs.any fun i => (job.outcome disk directory i).hasFailed then 1 else 0
  complaints :
    List.Forall₂
      (fun i line => ∃ text,
        (job.outcome disk directory i).messages = [text] ∧
          line = Loading.Diagnostic.line { path := i.path, text })
      (job.inputs.filter fun i => (job.outcome disk directory i).hasFailed) r.complaints

namespace Completes

variable (h : Completes disk directory texts a job)

include h

theorem arguments_eq : job.arguments = a :=
  (exists_of_prepare h.prepared).1

theorem writesModules (hjson : a.json = false) :
    WritesModules job disk directory (run disk directory texts) := by
  have harguments : job.arguments.json = false := by rw [h.arguments_eq, hjson]
  refine ⟨?_, ?_, ?_⟩
  · rw [h.lines_eq, List.filterMap_eq_nil_iff]
    intro action haction
    obtain ⟨i, -, haction⟩ := List.mem_flatMap.mp haction
    rw [Job.actionsOf_write harguments, Option.mem_toList, Option.map_eq_some_iff] at haction
    obtain ⟨text, -, rfl⟩ := haction
    rfl
  · intro location hchanged
    by_contra hnone
    apply hchanged
    apply h.lookup_of_none
    intro i hi action haction
    rw [Job.textAt?_of_mem_actionsOf harguments haction]
    split
    · next hplace => exact by_contra fun htext => hnone ⟨i, hi, hplace, htext⟩
    · rfl
  · intro before i after text hinputs htext hafter
    obtain ⟨console, hperform, -, hdisk, -⟩ := h.exists_console
    have hwrite : job.actionsOf disk directory i =
        [.write (outputPath job.arguments.outDir i) text] := by
      rw [Job.actionsOf_write harguments, htext]
      rfl
    rw [hinputs, List.flatMap_append, List.flatMap_cons, hwrite, List.singleton_append] at hperform
    rw [hdisk]
    apply lookup_of_perform_of_last hperform
    · exact if_pos rfl
    · intro later hlater
      obtain ⟨k, hk, hlater⟩ := List.mem_flatMap.mp hlater
      rw [Job.textAt?_of_mem_actionsOf harguments hlater]
      split
      · next hplace => exact by_contra fun hmodule => hafter k hk hmodule hplace.symm
      · rfl

theorem printsResults (hjson : a.json = true) :
    PrintsResults job disk directory (run disk directory texts) := by
  have harguments : job.arguments.json = true := by rw [h.arguments_eq, hjson]
  obtain ⟨console, hperform, hlines, hdisk, -⟩ := h.exists_console
  rw [Job.flatMap_actionsOf_print harguments, perform_print] at hperform
  obtain ⟨-, rfl⟩ := Prod.mk.inj hperform
  refine ⟨hdisk, hlines, ?_⟩
  rw [hlines]
  exact forall₂_showsResult job disk directory

theorem reportsFailures :
    ReportsFailures job disk directory (run disk directory texts) := by
  obtain ⟨console, -, -, -, hcomplaints, hexit⟩ := h.exists_console
  have hanswers : ∀ o ∈ job.inputs.map (job.outcome disk directory), o.isCrash = false := by
    simpa using h.answers
  have hmessages : ∀ o ∈ job.inputs.map (job.outcome disk directory),
      o.hasFailed = true → ∃ text, o.messages = [text] := by
    intro o ho hfailed
    obtain ⟨i, hi, rfl⟩ := List.mem_map.mp ho
    exact Job.exists_messages_outcome (h.answers i hi) hfailed
  have hempty := isEmpty_diagnosticsOf hmessages
  have hdiagnostics := Loading.forall₂_diagnosticsOf hmessages
  rw [report_of_prepare h.parsed h.compiles h.prepared, report_of_answers hanswers]
    at hcomplaints hexit
  rw [List.filter_map] at hdiagnostics
  constructor
  · have hany : (job.inputs.map (job.outcome disk directory)).any Outcome.hasFailed =
        job.inputs.any fun i => (job.outcome disk directory i).hasFailed := List.any_map
    rw [hexit, hempty, hany]
    cases job.inputs.any fun i => (job.outcome disk directory i).hasFailed with
    | true => rfl
    | false => rfl
  · rw [hcomplaints, List.forall₂_map_right_iff]
    rw [List.forall₂_map_left_iff] at hdiagnostics
    refine hdiagnostics.imp fun i d hd => ?_
    obtain ⟨hpath, htext⟩ := hd
    rw [Job.path_outcome] at hpath
    exact ⟨d.text, htext, by rw [← hpath]⟩

end Completes

end Runs

end CommandLine
end TemplateModules
