import TemplateModules.CommandLine.Plan
import TemplateModules.Config.File
import TemplateModules.Files.Disk
import TemplateModules.Loading.Session

/-!
# A run of the program

A run reads first and writes last.  What it reads goes through a host, which may be a disk in memory
or the operating system.  What it writes and prints is a report: a list of actions that are taken
one after another until a file cannot be written, the lines for the errors of the templates, and an
exit code.
-/

namespace TemplateModules
namespace CommandLine

open Loading (Outcome)

/-- What a run can ask for. -/
structure Host (m : Type → Type) where
  /-- The working directory. -/
  directory : FilePath
  /-- The text of a file. -/
  read : FilePath → m (Except FileError String)
  /-- Whether a path leads to something. -/
  contains : FilePath → m Bool
  /-- The files and directories at some paths, below them, and on the way to them. -/
  listing : List FilePath → m Listing

/-- Why a run fails before it loads templates. -/
inductive RunError where
  /-- The configuration that is named. -/
  | namedConfig (e : ConfigError)
  /-- The configuration in the working directory. -/
  | foundConfig (e : ConfigError)
  /-- The overrides, or the configuration with them. -/
  | overrides (e : ConfigError)
  | pattern (e : InvalidPattern)
  | noInputs
  | collision (e : Collision)
  /-- There is a configuration where a new one is to be written. -/
  | configThere
  /-- A file cannot be written. -/
  | unwritable (e : FileError)
  deriving DecidableEq, Repr

namespace RunError

/-- The text of an error. -/
def message : RunError → String
  | namedConfig e => "Failed to load config file: " ++ e.message
  | foundConfig e => "Failed to load " ++ Config.fileName.text ++ ": " ++ e.message
  | overrides e => e.message
  | pattern e => "Invalid include pattern '" ++ e.text ++ "': " ++ e.error.message
  | noInputs => "No input templates found. Use --help for usage information."
  | collision e => e.message
  | configThere => Config.fileName.text ++ " already exists"
  | unwritable e => e.message

end RunError

/-- A configuration with what the arguments change in it. -/
def overrideConfig (a : Arguments) (c : Config) : Except RunError Config :=
  match a.overrides with
  | .error e => .error (.overrides e)
  | .ok o =>
      match (c.merge o).validate with
      | .error e => .error (.overrides e)
      | .ok () => .ok (c.merge o)

section Reading

variable {m : Type → Type} [Monad m]

/-- The configuration of the file that is named or found, or the initial one. -/
def readConfig (h : Host m) (a : Arguments) : m (Except RunError Config) := do
  match a.project with
  | some path => return (Config.ofFile path (← h.read path)).mapError .namedConfig
  | none =>
      if ← h.contains Config.fileName then
        return (Config.ofFile Config.fileName (← h.read Config.fileName)).mapError .foundConfig
      else return .ok .initial

/-- The configuration of a run. -/
def loadConfig (h : Host m) (a : Arguments) : m (Except RunError Config) := do
  return (← readConfig h a).bind (overrideConfig a)

/-- The inputs of a run under a configuration. -/
def findInputs (h : Host m) (a : Arguments) (c : Config) : m (Except RunError (List Input)) := do
  let s : Surroundings := { directory := h.directory, listing := ← h.listing a.roots }
  return (collectInputs a c.filter s).mapError .pattern

/-- What is to be compiled, and where it is written. -/
structure Job where
  arguments : Arguments
  config : Config
  inputs : List Input
  plan : OutputPlan
  deriving Repr

namespace Job

/-- The paths of the inputs. -/
def files (j : Job) : List FilePath :=
  j.inputs.map Input.path

end Job

/-- The job for inputs, of which there must be one. -/
def makeJob (a : Arguments) (c : Config) (inputs : List Input) : Except RunError Job :=
  if inputs.isEmpty then .error .noInputs
  else
    ((planOutputs a inputs).mapError .collision).map fun plan =>
      { arguments := a, config := c, inputs, plan }

/-- The job that arguments ask for. -/
def prepare (h : Host m) (a : Arguments) : m (Except RunError Job) := do
  match ← loadConfig h a with
  | .error e => return .error e
  | .ok c =>
      match ← findInputs h a c with
      | .error e => return .error e
      | .ok inputs => return makeJob a c inputs

/-- The outcome for a path, given its text or why it cannot be read. -/
def outcomeOf (c : Config) (path : FilePath) (text : Except FileError String) : Outcome :=
  .ofResult path
    (match text with
    | .error e => .error (.file e)
    | .ok source => Loading.build c path source)

def loadPath (h : Host m) (c : Config) (path : FilePath) : m Outcome := do
  if c.filter.accepts path then return outcomeOf c path (← h.read path)
  else return .skipped path

def loadPaths (h : Host m) (c : Config) : List FilePath → m (List Outcome)
  | [] => return []
  | path :: paths => do
      let outcome ← loadPath h c path
      let outcomes ← loadPaths h c paths
      return outcome :: outcomes

end Reading

/-- What a run does to its surroundings. -/
inductive Action where
  | write (path : FilePath) (text : String)
  /-- Prints a line. -/
  | print (line : String)
  deriving DecidableEq, Repr

/-- What a run does, and how it ends if all files can be written. -/
structure Report where
  actions : List Action
  /-- The lines for errors. -/
  complaints : List String
  exitCode : Nat
  deriving DecidableEq, Repr

namespace Report

def failed (e : RunError) : Report :=
  { actions := [], complaints := ["Error: " ++ e.message], exitCode := 1 }

/-- The report for arguments that are refused, or ask for information. -/
def usage (e : UsageError) : Report :=
  if e.isRequest then { actions := [.print e.message], complaints := [], exitCode := 0 }
  else { actions := [], complaints := [e.message], exitCode := 2 }

/-- The report of a run that writes a new configuration. -/
def newConfig : Report where
  actions :=
    [.write Config.fileName Config.newFile, .print ("Created " ++ Config.fileName.text)]
  complaints := []
  exitCode := 0

end Report

namespace Job

/-- The result for a path as a line. -/
def resultLine (path : FilePath) (output : Loading.LoadOutput) : String :=
  (Json.object (("path", .text path.text) :: output.fields)).write

/-- What is done for an outcome: its result is printed, or its module is written. -/
def actionsFor (j : Job) : Outcome → List Action
  | .loaded path output =>
      if j.arguments.json then [.print (resultLine path output)]
      else
        match output.moduleText?, j.plan.get? path with
        | some text, some target => [.write target text]
        | _, _ => []
  | .failed _ _ => []
  | .skipped _ => []

/-- The exit code of a run in which the scanner of templates gives no answer. -/
def crashCode : Nat := 101

/-- The report of outcomes. -/
def report (j : Job) (outcomes : List Outcome) : Report :=
  if outcomes.any Outcome.isCrash then
    { actions := [], complaints := [], exitCode := crashCode }
  else
    let found := Loading.diagnosticsOf outcomes
    { actions := outcomes.flatMap j.actionsFor
      complaints := found.map Loading.Diagnostic.line
      exitCode := if found.isEmpty then 0 else 1 }

/-- Loads some of the inputs of a job. -/
def build {m : Type → Type} [Monad m] (j : Job) (h : Host m) (files : List FilePath) :
    m Report := do
  return j.report (← loadPaths h j.config files)

end Job

section Running

variable {m : Type → Type} [Monad m]

/-- The report of a run with arguments that are in order. -/
def reportFor (h : Host m) (a : Arguments) : m Report := do
  if a.init then
    if ← h.contains Config.fileName then return .failed .configThere else return .newConfig
  else
    match ← prepare h a with
    | .error e => return .failed e
    | .ok job => job.build h job.files

def report (h : Host m) (texts : List String) : m Report := do
  match Arguments.parse texts with
  | .error e => return .usage e
  | .ok a => reportFor h a

/-- Takes actions until a file cannot be written. -/
def perform (write : FilePath → String → m (Except FileError Unit)) (print : String → m Unit) :
    List Action → m (Option FileError)
  | [] => return none
  | .write path text :: actions => do
      match ← write path text with
      | .error e => return some e
      | .ok () => perform write print actions
  | .print line :: actions => do
      print line
      perform write print actions

end Running

namespace Report

/-- The lines for errors and the exit code, given why the actions were not all taken. -/
def ending (r : Report) (stopped : Option FileError) : List String × Nat :=
  match stopped with
  | none => (r.complaints, r.exitCode)
  | some e => ((failed (.unwritable e)).complaints, (failed (.unwritable e)).exitCode)

end Report
end CommandLine
end TemplateModules
