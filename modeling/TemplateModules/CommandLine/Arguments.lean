import TemplateModules.Config.Overrides

/-!
# Arguments of the command line

An argument is an option, a value of the option before it, or a path.  Options have a long name,
some have a letter too, and letters may stand together after one dash.  A value may be attached to
its option.  After two dashes all arguments are paths.

Values are checked late: an option is looked at once its value is complete and something else
follows.  This decides which of two mistakes is reported.
-/

namespace TemplateModules
namespace CommandLine

/-- The options that take a value. -/
inductive ValueOption where
  /-- The file of the configuration. -/
  | project
  /-- A helper with its specifier. -/
  | helper
  /-- A partial with its specifier. -/
  | inclusion
  /-- The directory of the modules. -/
  | outDir
  | runtimeModule
  /-- A pattern of paths. -/
  | pattern
  deriving DecidableEq, Repr

/-- The options that are on or off. -/
inductive Switch where
  | inlineSourceMap
  /-- Results are printed in JSON, and no files are written. -/
  | json
  /-- Templates are compiled again when they change. -/
  | watch
  /-- A configuration is written, and nothing is compiled. -/
  | init
  | verbose
  deriving DecidableEq, Repr

/-- What a name of an option stands for. -/
inductive OptionName where
  | value (o : ValueOption)
  | switch (s : Switch)
  | help
  | version
  deriving DecidableEq, Repr

namespace OptionName

def ofLong? : String → Option OptionName
  | "project" => some (value .project)
  | "helper" => some (value .helper)
  | "partial" => some (value .inclusion)
  | "out-dir" => some (value .outDir)
  | "runtime-module" => some (value .runtimeModule)
  | "include" => some (value .pattern)
  | "inline-source-map" => some (switch .inlineSourceMap)
  | "json" => some (switch .json)
  | "watch" => some (switch .watch)
  | "init" => some (switch .init)
  | "verbose" => some (switch .verbose)
  | "help" => some help
  | "version" => some version
  | _ => none

def ofLetter? : Char → Option OptionName
  | 'p' => some (value .project)
  | 'w' => some (switch .watch)
  | 'v' => some (switch .verbose)
  | 'h' => some help
  | 'V' => some version
  | _ => none

end OptionName

/-- What the arguments say. -/
structure Arguments where
  inputs : List FilePath
  project : Option FilePath
  helpers : List String
  partials : List String
  outDir : Option FilePath
  runtimeModule : Option String
  patterns : List String
  inlineSourceMap : Bool
  json : Bool
  watch : Bool
  init : Bool
  verbose : Bool
  deriving DecidableEq, Repr

/-- Why arguments are refused, or what is asked for instead of a run. -/
inductive UsageError where
  | unknownOption (argument : String)
  /-- An option has no value. -/
  | missingValue
  /-- A path is empty. -/
  | emptyPath
  /-- An option stands twice that may stand once only. -/
  | repeated
  /-- A value is attached to an option that takes none. -/
  | attachedValue (value : String)
  | help
  | version
  deriving DecidableEq, Repr

namespace UsageError

/-- Whether information is asked for, which is no mistake. -/
def isRequest : UsageError → Bool
  | help => true
  | version => true
  | _ => false

/-- The text of the options. -/
def usage : String :=
  "Precompile Handlebars templates into JavaScript modules\n\n" ++
  "Usage: hbspack [OPTIONS] [PATH]...\n\n" ++
  "Options:\n" ++
  "  -p, --project <FILE>           Path to a configuration file\n" ++
  "      --helper <NAME=SPEC>       Add or replace a helper import (repeatable)\n" ++
  "      --partial <NAME=SPEC>      Add or replace a partial import (repeatable)\n" ++
  "      --out-dir <DIR>            Output directory for generated modules\n" ++
  "      --runtime-module <MODULE>  Module of the Handlebars runtime\n" ++
  "      --inline-source-map        Append the source map to each module\n" ++
  "      --json                     Print load results instead of writing files\n" ++
  "  -w, --watch                    Recompile templates when they change\n" ++
  "      --init                     Write a default hbsconfig.yaml\n" ++
  "  -v, --verbose                  Enable debug logging\n" ++
  "      --include <PATTERN>        Additional templates as glob patterns (repeatable)\n" ++
  "  -h, --help                     Print help\n" ++
  "  -V, --version                  Print version"

/-- The text of a mistake, or the information that is asked for. -/
def message : UsageError → String
  | unknownOption argument => "error: unexpected argument '" ++ argument ++ "' found"
  | missingValue => "error: a value is required for an option"
  | emptyPath => "error: a path must not be empty"
  | repeated => "error: an argument cannot be used multiple times"
  | attachedValue value => "error: unexpected value '" ++ value ++ "'"
  | help => usage
  | version => "hbspack 0.1.0"

end UsageError

namespace Arguments

def none : Arguments where
  inputs := []
  project := Option.none
  helpers := []
  partials := []
  outDir := Option.none
  runtimeModule := Option.none
  patterns := []
  inlineSourceMap := false
  json := false
  watch := false
  init := false
  verbose := false

instance : Inhabited Arguments := ⟨none⟩

/-- A path, which must not be empty. -/
def checkPath (text : String) : Except UsageError FilePath :=
  if text.isEmpty then .error .emptyPath else .ok { text }

/-- Sets a part that may be set once only. -/
def setOnce {α : Type} (old : Option α) (new : Except UsageError α) :
    Except UsageError (Option α) :=
  if old.isSome then .error .repeated else new.map some

/-- Gives an option a value. -/
def setValue (a : Arguments) (value : String) : ValueOption → Except UsageError Arguments
  | .project => (setOnce a.project (checkPath value)).map fun project => { a with project }
  | .helper => .ok { a with helpers := a.helpers ++ [value] }
  | .inclusion => .ok { a with partials := a.partials ++ [value] }
  | .outDir => (setOnce a.outDir (checkPath value)).map fun outDir => { a with outDir }
  | .runtimeModule =>
      (setOnce a.runtimeModule (.ok value)).map fun runtimeModule => { a with runtimeModule }
  | .pattern => .ok { a with patterns := a.patterns ++ [value] }

/-- Turns a switch on, which may be done once only. -/
def turnOn (a : Arguments) : Switch → Except UsageError Arguments
  | .inlineSourceMap =>
      if a.inlineSourceMap then .error .repeated else .ok { a with inlineSourceMap := true }
  | .json => if a.json then .error .repeated else .ok { a with json := true }
  | .watch => if a.watch then .error .repeated else .ok { a with watch := true }
  | .init => if a.init then .error .repeated else .ok { a with init := true }
  | .verbose => if a.verbose then .error .repeated else .ok { a with verbose := true }

/-- Adds paths. -/
def addInputs (a : Arguments) (texts : List String) : Except UsageError Arguments :=
  (texts.mapM checkPath).map fun paths => { a with inputs := a.inputs ++ paths }

end Arguments

/-- What is complete or nearly so, but has not been looked at. -/
inductive Pending where
  | nothing
  /-- An option, with its value once that has come. -/
  | option (o : ValueOption) (value : Option String)
  /-- Paths that follow each other. -/
  | inputs (texts : List String)
  deriving DecidableEq, Repr

/-- The arguments so far. -/
structure Reading where
  arguments : Arguments
  pending : Pending
  deriving DecidableEq, Repr

namespace Reading

/-- No arguments so far. -/
def start : Reading := { arguments := .none, pending := .nothing }

/-- Looks at what is pending. -/
def settle (r : Reading) : Except UsageError Arguments :=
  match r.pending with
  | .nothing => .ok r.arguments
  | .option _ none => .error .missingValue
  | .option o (some value) => r.arguments.setValue value o
  | .inputs texts => r.arguments.addInputs texts

/-- Goes on after what is pending has been looked at. -/
def andThen (r : Reading) (f : Arguments → Except UsageError Arguments) :
    Except UsageError Reading :=
  match r.settle with
  | .error e => .error e
  | .ok a => (f a).map fun arguments => { arguments, pending := .nothing }

/-- Takes an option that is no value option. -/
def takeSwitch (r : Reading) : OptionName → Except UsageError Reading
  | .switch s => r.andThen fun a => a.turnOn s
  | .help => r.andThen fun _ => .error .help
  | .version => r.andThen fun _ => .error .version
  | .value _ => .ok r

/-- Takes an option whose value is to follow. -/
def await (r : Reading) (o : ValueOption) : Except UsageError Reading :=
  r.settle.map fun arguments => { arguments, pending := .option o none }

/-- Takes an option with the value that is attached to it. -/
def takeAttached (r : Reading) (o : ValueOption) (value : String) : Except UsageError Reading :=
  r.andThen fun a => a.setValue value o

/-- Takes an argument after its two dashes. -/
def takeLong (r : Reading) (cs : List Char) : Except UsageError Reading :=
  let name := String.ofList (cs.takeWhile (· ≠ '='))
  let attached : Option String :=
    match cs.dropWhile (· ≠ '=') with
    | [] => none
    | _ :: value => some (String.ofList value)
  match OptionName.ofLong? name, attached with
  | none, _ => .error (.unknownOption ("--" ++ name))
  | some (.value o), some value => r.takeAttached o value
  | some (.value o), none => r.await o
  | some _, some value => .error (.attachedValue value)
  | some option, none => r.takeSwitch option

/-- Takes letters after a dash. -/
def takeLetters (r : Reading) : List Char → Except UsageError Reading
  | [] => .ok r
  | c :: cs =>
      match OptionName.ofLetter? c with
      | none => .error (.unknownOption (String.ofList ['-', c]))
      | some (.value o) =>
          match cs with
          | [] => r.await o
          | '=' :: value => r.takeAttached o (String.ofList value)
          | value => r.takeAttached o (String.ofList value)
      | some option =>
          match r.takeSwitch option with
          | .error e => .error e
          | .ok r => takeLetters r cs

/-- Takes a path. -/
def takeInput (r : Reading) (text : String) : Except UsageError Reading :=
  match r.pending with
  | .inputs texts => .ok { r with pending := .inputs (texts ++ [text]) }
  | _ => r.settle.map fun arguments => { arguments, pending := .inputs [text] }

/-- Takes an argument that is no option: a value if one is awaited, or else a path. -/
def takePlain (r : Reading) (text : String) : Except UsageError Reading :=
  match r.pending with
  | .option o none => .ok { r with pending := .option o (some text) }
  | _ => r.takeInput text

/-- Takes an argument in front of two dashes. -/
def take (r : Reading) (text : String) : Except UsageError Reading :=
  match text.toList with
  | '-' :: '-' :: cs => r.takeLong cs
  | '-' :: c :: cs => r.takeLetters (c :: cs)
  | _ => r.takePlain text

/-- Takes arguments that are all paths. -/
def takeInputs (r : Reading) : List String → Except UsageError Reading
  | [] => .ok r
  | text :: texts =>
      match r.takeInput text with
      | .error e => .error e
      | .ok r => takeInputs r texts

/-- Takes arguments up to two dashes, and the paths after them. -/
def takeAll (r : Reading) : List String → Except UsageError Reading
  | [] => .ok r
  | text :: texts =>
      if text = "--" then r.takeInputs texts
      else
        match r.take text with
        | .error e => .error e
        | .ok r => takeAll r texts

end Reading

namespace Arguments

/-- What a list of arguments says. -/
def parse (texts : List String) : Except UsageError Arguments :=
  match Reading.start.takeAll texts with
  | .error e => .error e
  | .ok r => r.settle

/-- The names and specifiers that texts give. -/
def parsePairs (kind : ExtensionKind) (texts : List String) :
    Except ConfigError (List (String × String)) :=
  texts.mapM (Overrides.parsePair kind)

/-- What the arguments change in a configuration. -/
def overrides (a : Arguments) : Except ConfigError Overrides :=
  match parsePairs .helper a.helpers with
  | .error e => .error e
  | .ok helpers =>
      (parsePairs .inclusion a.partials).map fun partials =>
        { helpers, partials, runtimeModule := a.runtimeModule,
          inlineSourceMap := a.inlineSourceMap }

end Arguments
end CommandLine
end TemplateModules
