import TemplateModules.Proofs.CommandLine.Effects

/-!
# Runs of the program

What a run writes, prints and reports, whatever inputs succeed, fail and are skipped.  The check for
collisions compares outputs as paths, so that two of them can lead to one place.
-/

namespace TemplateModules
namespace CommandLine

open Loading (Outcome)

variable {disk : Disk} {directory : FilePath} {texts : List String} {a : Arguments} {job : Job}

/-- What is written without JSON is known from the outcomes of the same inputs. -/
theorem actions_without_json {texts' : List String} {job' : Job}
    (h : Completes disk directory texts a job)
    (hparsed : Arguments.parse texts' = .ok { a with json := false })
    (hjob : Id.run (prepare (diskHost disk directory) { a with json := false }) = .ok job') :
    (Id.run (report (diskHost disk directory) texts')).actions =
      job.inputs.flatMap fun i =>
        ((job.outcome disk directory i).moduleText?.map
          fun text => Action.write (outputPath a.outDir i) text).toList := by
  obtain ⟨hconfig, hinputs⟩ := prepare_json h.prepared hjob
  obtain ⟨harguments, -⟩ := exists_of_prepare hjob
  have houtcome : job'.outcome disk directory = job.outcome disk directory := by
    funext i
    rw [Job.outcome_eq, Job.outcome_eq, hconfig]
  have hanswers : ∀ o ∈ job'.inputs.map (job'.outcome disk directory), o.isCrash = false := by
    rw [hinputs, houtcome]
    simpa using h.answers
  have hactions : job'.actionsOf disk directory = fun i =>
      ((job.outcome disk directory i).moduleText?.map
        fun text => Action.write (outputPath a.outDir i) text).toList := by
    funext i
    rw [Job.actionsOf_write (by rw [harguments]), houtcome, harguments]
  rw [report_of_prepare hparsed h.compiles hjob, report_of_answers hanswers,
    flatMap_actionsFor hjob, hinputs, hactions]

/--
A run loads its inputs in the order of their paths, each as if there were no others, and reports one
line for each that fails.  Without JSON it writes the modules, and a location holds the module of
the last input whose output leads there.  With JSON it prints a line for each result and changes no
file, and the modules are those that the same run would write.
-/
theorem run_effects (h : Completes disk directory texts a job) :
    (job.inputs.Pairwise Input.Before ∧
      ∀ i ∈ job.inputs, job.plan.get? i.path = some (outputPath a.outDir i)) ∧
    (∀ (disk' : Disk) (i : Input),
      disk'.read (locationOf directory) i.path = disk.read (locationOf directory) i.path →
      job.outcome disk' directory i = job.outcome disk directory i) ∧
    ReportsFailures job disk directory (run disk directory texts) ∧
    (a.json = false → WritesModules job disk directory (run disk directory texts)) ∧
    (a.json = true →
      PrintsResults job disk directory (run disk directory texts) ∧
      ∀ (texts' : List String) (job' : Job),
        Arguments.parse texts' = .ok { a with json := false } →
        Id.run (prepare (diskHost disk directory) { a with json := false }) = .ok job' →
        (Id.run (report (diskHost disk directory) texts')).actions =
          job.inputs.flatMap fun i =>
            ((job.outcome disk directory i).moduleText?.map
              fun text => Action.write (outputPath a.outDir i) text).toList) := by
  obtain ⟨-, -, -, hplan⟩ := exists_of_prepare h.prepared
  have hsorted := pairwise_of_prepare h.prepared
  refine ⟨⟨hsorted, fun i hi => get?_of_planFrom hplan hsorted hi⟩,
    fun disk' i => Job.outcome_congr, h.reportsFailures, h.writesModules, fun hjson => ?_⟩
  exact ⟨h.printsResults hjson, fun texts' job' => actions_without_json h⟩

/-! ## Runs on small disks -/

/-- A run completes if it does so in its parts. -/
theorem completes_of_parts {c : Config} {inputs : List Input} {plan : OutputPlan}
    (hparsed : Arguments.parse texts = .ok a) (hinit : a.init = false) (hwatch : a.watch = false)
    (hconfig : Id.run (loadConfig (diskHost disk directory) a) = .ok c)
    (hinputs : Id.run (findInputs (diskHost disk directory) a c) = .ok inputs)
    (hplan : planOutputs a inputs = .ok plan) (hsome : inputs.isEmpty = false)
    (hanswers : ∀ i ∈ inputs,
      ((Job.mk a c inputs plan).outcome disk directory i).isCrash = false)
    (hwrites :
      ((perform (Console.write (locationOf directory)) Console.print
        (inputs.flatMap ((Job.mk a c inputs plan).actionsOf disk directory))).run
          { disk, lines := [] }).1 = none) :
    Completes disk directory texts a { arguments := a, config := c, inputs, plan } := by
  have hjob : Id.run (prepare (diskHost disk directory) a) =
      .ok { arguments := a, config := c, inputs, plan } := by
    rw [prepare_eq, hconfig, Except.bind, hinputs, Except.bind, makeJob, hsome, hplan]
    rfl
  refine ⟨hparsed, hinit, hwatch, hjob, hanswers, ?_⟩
  rw [failedWrite?, report_of_prepare hparsed hinit hjob,
    report_of_answers (by simpa using hanswers), flatMap_actionsFor hjob]
  exact hwrites

/-- The inputs of a run without patterns that names its files in the order of their paths. -/
theorem findInputs_of_sorted {c : Config} {inputs : List Input} (hpatterns : a.patterns = [])
    (hfound : a.inputs.flatMap (Surroundings.inputsOf { directory, listing := disk.listing }
      c.filter) = inputs)
    (hsorted : inputs.Pairwise fun i k => i.le k = true) :
    Id.run (findInputs (diskHost disk directory) a c) = .ok (Input.dropRepeats inputs) := by
  have hcollected : collectInputs a c.filter { directory, listing := disk.listing } =
      .ok (Input.dropRepeats inputs) := by
    rw [collectInputs_of_sorted hpatterns (by rw [hfound]; exact hsorted), hfound]
  have hfind : Id.run (findInputs (diskHost disk directory) a c) =
      (collectInputs a c.filter { directory, listing := disk.listing }).mapError .pattern := rfl
  rw [hfind, hcollected]
  rfl

theorem planOutputs_of_entries {inputs : List Input} {entries : List (FilePath × FilePath)}
    (h : (planOutputs a inputs).map PathMap.entries = .ok entries) :
    planOutputs a inputs = .ok { entries } := by
  obtain ⟨plan, hplan, rfl⟩ := map_eq_ok.mp h
  exact hplan

/-- A run without patterns completes if it names different files in the order of their paths, and
completes in its parts. -/
theorem completes_of_sorted (hparsed : Arguments.parse texts = .ok job.arguments)
    (hinit : job.arguments.init = false) (hwatch : job.arguments.watch = false)
    (hpatterns : job.arguments.patterns = [])
    (hconfig : Id.run (loadConfig (diskHost disk directory) job.arguments) = .ok job.config)
    (hfound : job.arguments.inputs.flatMap (Surroundings.inputsOf
      { directory, listing := disk.listing } job.config.filter) = job.inputs)
    (hsorted : job.inputs.Pairwise fun i k => i.le k = true)
    (hkept : Input.dropRepeats job.inputs = job.inputs)
    (hplan : (planOutputs job.arguments job.inputs).map PathMap.entries = .ok job.plan.entries)
    (hsome : job.inputs.isEmpty = false)
    (hanswers : ∀ i ∈ job.inputs, (job.outcome disk directory i).isCrash = false)
    (hwrites :
      ((perform (Console.write (locationOf directory)) Console.print
        (job.inputs.flatMap (job.actionsOf disk directory))).run { disk, lines := [] }).1 = none) :
    Completes disk directory texts job.arguments job := by
  have hinputs := findInputs_of_sorted hpatterns hfound hsorted
  rw [hkept] at hinputs
  exact completes_of_parts hparsed hinit hwatch hconfig hinputs (planOutputs_of_entries hplan)
    hsome hanswers hwrites

/-- Arguments that name files and say whether results are printed. -/
def naming (files : List FilePath) (json : Bool) : Arguments where
  inputs := files
  project := none
  helpers := []
  partials := []
  outDir := none
  runtimeModule := none
  patterns := []
  inlineSourceMap := false
  json := json
  watch := false
  init := false
  verbose := false

def rootDirectory : FilePath := { text := "/" }

/-- A disk with a template, a template that cannot be compiled, and a file that is none. -/
def mixture : Disk where
  directories := [["t"]]
  files :=
    [(["t", "a.hbs"], .text "A"), (["t", "b.hbs"], .text "\x7b\x7b"), (["t", "c.txt"], .text "C")]

def mixtureTexts (json : Bool) : List String :=
  (if json then ["--json"] else []) ++ ["t/a.hbs", "t/b.hbs", "t/c.txt"]

def mixtureJob (json : Bool) : Job where
  arguments := naming [⟨"t/a.hbs"⟩, ⟨"t/b.hbs"⟩, ⟨"t/c.txt"⟩] json
  config := .initial
  inputs :=
    [⟨⟨"/t/a.hbs"⟩, ⟨"a.hbs"⟩⟩, ⟨⟨"/t/b.hbs"⟩, ⟨"b.hbs"⟩⟩, ⟨⟨"/t/c.txt"⟩, ⟨"c.txt"⟩⟩]
  plan :=
    ⟨[(⟨"/t/a.hbs"⟩, ⟨"/t/a.js"⟩), (⟨"/t/b.hbs"⟩, ⟨"/t/b.js"⟩), (⟨"/t/c.txt"⟩, ⟨"/t/c.js"⟩)]⟩

theorem mixture_completes (json : Bool) :
    Completes mixture rootDirectory (mixtureTexts json) (mixtureJob json).arguments
      (mixtureJob json) := by
  cases json with
  | false =>
      exact completes_of_sorted (by decide +kernel) rfl rfl rfl rfl (by decide +kernel)
        (by decide +kernel) (by decide +kernel) (by decide +kernel) rfl (by decide +kernel)
        (by decide +kernel)
  | true =>
      exact completes_of_sorted (by decide +kernel) rfl rfl rfl rfl (by decide +kernel)
        (by decide +kernel) (by decide +kernel) (by decide +kernel) rfl (by decide +kernel)
        (by decide +kernel)

theorem mixture_effects :
    (run mixture rootDirectory (mixtureTexts false)).exitCode = 1 ∧
      (run mixture rootDirectory (mixtureTexts false)).disk.files.lookup ["t", "a.js"] ≠ none ∧
      (run mixture rootDirectory (mixtureTexts false)).disk.files.lookup ["t", "b.js"] = none ∧
      (run mixture rootDirectory (mixtureTexts true)).lines.length = 2 ∧
      (run mixture rootDirectory (mixtureTexts true)).disk = mixture := by
  obtain ⟨-, -, hreports, hwrites, -⟩ := run_effects (mixture_completes false)
  obtain ⟨-, -, -, -, hprints⟩ := run_effects (mixture_completes true)
  obtain ⟨-, hchanged, hholds⟩ := hwrites rfl
  obtain ⟨hprinted, -⟩ := hprints rfl
  refine ⟨?_, ?_, ?_, ?_, hprinted.unchanged⟩
  · rw [hreports.exitCode]
    decide +kernel
  · have hmodule : (((mixtureJob false).outcome mixture rootDirectory
        ⟨⟨"/t/a.hbs"⟩, ⟨"a.hbs"⟩⟩).moduleText?).isSome = true := by decide +kernel
    obtain ⟨text, htext⟩ := Option.isSome_iff_exists.mp hmodule
    have hplace : (mixtureJob false).target rootDirectory ⟨⟨"/t/a.hbs"⟩, ⟨"a.hbs"⟩⟩ =
        ["t", "a.js"] := by decide +kernel
    rw [← hplace, hholds [] _ _ text rfl htext (by decide +kernel)]
    exact Option.some_ne_none _
  · by_contra hsome
    obtain ⟨i, hi, hplace, htext⟩ := hchanged ["t", "b.js"] hsome
    revert i
    decide +kernel
  · rw [hprinted.lines]
    decide +kernel

/-! ## Two outputs at one place -/

/-- A disk with two templates whose modules have one place. -/
def twins : Disk where
  directories := [["t"]]
  files := [(["t", "a.hbs"], .text "A"), (["t", "a.handlebars"], .text "B")]

/-- The arguments name one of the templates by a path that goes out of its directory and back. -/
def twinsTexts : List String := ["t/../t/a.handlebars", "t/a.hbs"]

def twinsJob : Job where
  arguments := naming [⟨"t/../t/a.handlebars"⟩, ⟨"t/a.hbs"⟩] false
  config := .initial
  inputs :=
    [⟨⟨"/t/../t/a.handlebars"⟩, ⟨"a.handlebars"⟩⟩, ⟨⟨"/t/a.hbs"⟩, ⟨"a.hbs"⟩⟩]
  plan :=
    ⟨[(⟨"/t/../t/a.handlebars"⟩, ⟨"/t/../t/a.js"⟩), (⟨"/t/a.hbs"⟩, ⟨"/t/a.js"⟩)]⟩

theorem twins_completes :
    Completes twins rootDirectory twinsTexts twinsJob.arguments twinsJob :=
  completes_of_sorted (by decide +kernel) rfl rfl rfl rfl (by decide +kernel) (by decide +kernel)
    (by decide +kernel) (by decide +kernel) rfl (by decide +kernel) (by decide +kernel)

/-- Two outputs that are different paths of one place pass the check for collisions, and one of the
two modules is lost. -/
theorem twins_lose_a_module :
    Completes twins rootDirectory twinsTexts twinsJob.arguments twinsJob ∧
      ¬ ∀ i ∈ twinsJob.inputs, ∀ text,
        (twinsJob.outcome twins rootDirectory i).moduleText? = some text →
        (run twins rootDirectory twinsTexts).disk.files.lookup (twinsJob.target rootDirectory i) =
          some (.text text) := by
  refine ⟨twins_completes, fun hall => ?_⟩
  have hmodules : ∀ i ∈ twinsJob.inputs,
      ((twinsJob.outcome twins rootDirectory i).moduleText?).isSome = true := by decide +kernel
  have hplaces : ∀ i ∈ twinsJob.inputs, twinsJob.target rootDirectory i = ["t", "a.js"] := by
    decide +kernel
  have hsame : ∀ i ∈ twinsJob.inputs,
      ((twinsJob.outcome twins rootDirectory i).moduleText?).map FileContents.text =
        (run twins rootDirectory twinsTexts).disk.files.lookup ["t", "a.js"] := by
    intro i hi
    obtain ⟨text, htext⟩ := Option.isSome_iff_exists.mp (hmodules i hi)
    rw [← hplaces i hi, hall i hi text htext, htext]
    rfl
  have hdifferent : ¬ ∀ i ∈ twinsJob.inputs, ∀ k ∈ twinsJob.inputs,
      (twinsJob.outcome twins rootDirectory i).moduleText? =
        (twinsJob.outcome twins rootDirectory k).moduleText? := by decide +kernel
  apply hdifferent
  intro i hi k hk
  have htexts := (hsame i hi).trans (hsame k hk).symm
  exact Option.map_injective (fun _ _ h => FileContents.text.inj h) htexts

end CommandLine
end TemplateModules
