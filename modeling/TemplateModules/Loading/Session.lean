import TemplateModules.Loading.Diagnostic
import TemplateModules.Loading.Load

/-!
# Sessions

A session loads files for a host.  The first of its plugins whose filter accepts a path loads it;
each plugin has a configuration and a cache of its own, and all share the files.  The first plugin
is the main one, whose cache belongs to the surroundings of the session.
-/

namespace TemplateModules
namespace Loading

/-- How a host's request for one path ends. -/
inductive Outcome where
  | loaded (path : FilePath) (output : LoadOutput)
  | failed (path : FilePath) (failure : LoadFailure)
  /-- No plugin accepts the path. -/
  | skipped (path : FilePath)
  deriving DecidableEq, Repr

namespace Outcome

/-- The path that was asked for. -/
def path : Outcome → FilePath
  | loaded p _ => p
  | failed p _ => p
  | skipped p => p

def ofResult (path : FilePath) : LoadResult → Outcome
  | .ok output => loaded path output
  | .error failure => failed path failure

/-- The texts of the errors of a path. -/
def messages : Outcome → List String
  | loaded _ output => output.errorTexts
  | failed _ (.file e) => [e.message]
  | failed _ .crashed => []
  | skipped _ => []

def isError (o : Outcome) : Bool :=
  !o.messages.isEmpty

/-- Whether the scanner of templates gave no answer. -/
def isCrash : Outcome → Bool
  | failed _ .crashed => true
  | _ => false

end Outcome

/-- The errors that outcomes report, in their order. -/
def diagnosticsOf (outcomes : List Outcome) : List Diagnostic :=
  outcomes.flatMap fun o => o.messages.map fun text => { path := o.path, text }

/-- A configuration with a cache of its own. -/
structure Plugin where
  config : Config
  cache : Cache
  deriving Repr

namespace Plugin

/-- A plugin that has loaded nothing. -/
def new (config : Config) : Plugin := { config, cache := .empty }

/-- Loads a path with the plugin's own cache in place of that of the surroundings. -/
def load (p : Plugin) (path : FilePath) (w : World) : LoadResult × Plugin × World :=
  let (result, w') := Loading.load p.config path { w with cache := p.cache }
  (result, { p with cache := w'.cache }, { w' with cache := w.cache })

end Plugin

/-- Loads a path with the first plugin that accepts it, if there is one. -/
def loadFirst (path : FilePath) (w : World) :
    List Plugin → Option (LoadResult × List Plugin × World)
  | [] => none
  | p :: ps =>
      if p.config.filter.accepts path then
        let (result, p, w) := p.load path w
        some (result, p :: ps, w)
      else (loadFirst path w ps).map fun (result, ps, w) => (result, p :: ps, w)

/-- A session of a host. -/
structure Session where
  /-- The configuration of the main plugin. -/
  config : Config
  /-- The other plugins. -/
  plugins : List Plugin
  world : World
  /-- The errors that have been reported. -/
  diagnostics : Diagnostics
  /-- The outcomes of the last run. -/
  outcomes : List Outcome
  deriving Repr

namespace Session

/-- A session without files in which nothing has been loaded. -/
def new (config : Config) (others : List Config) (clock : Time) : Session where
  config := config
  plugins := others.map Plugin.new
  world := { store := .empty, cache := .empty, clock, compiles := 0 }
  diagnostics := .none
  outcomes := []

/-- Changes the files. -/
def mapStore (s : Session) (f : Store → Store) : Session :=
  { s with world := { s.world with store := f s.world.store } }

/-- Changes the files at a new reading of the clock. -/
def mapStoreNow (s : Session) (f : Time → Store → Store) : Session :=
  let w := s.world.tick
  { s with world := { w with store := f w.clock w.store } }

/-- Changes the cache of the main plugin. -/
def mapCache (s : Session) (f : Cache → Cache) : Session :=
  { s with world := { s.world with cache := f s.world.cache } }

/-- Loads a path with the main plugin, whatever its filter says. -/
def load (s : Session) (path : FilePath) : LoadResult × Session :=
  let (result, world) := Loading.load s.config path s.world
  (result, { s with world })

/-- A fresh module from the cache of the main plugin. -/
def getFresh (s : Session) (path : FilePath) : Option String × Session :=
  let (text, world) := Loading.getFresh path s.world
  (text, { s with world })

/-- Loads a path for the host. -/
def hostLoad (s : Session) (path : FilePath) : Outcome × Session :=
  if s.config.filter.accepts path then
    let (result, s) := s.load path
    (.ofResult path result, s)
  else
    match loadFirst path s.world s.plugins with
    | none => (.skipped path, s)
    | some (result, plugins, world) => (.ofResult path result, { s with plugins, world })

/-- Loads paths for the host, one after another. -/
def hostLoadAll (s : Session) : List FilePath → List Outcome × Session
  | [] => ([], s)
  | path :: paths =>
      let (outcome, s) := s.hostLoad path
      let (outcomes, s) := s.hostLoadAll paths
      (outcome :: outcomes, s)

/-- Loads paths for the host and remembers the outcomes. -/
def run (s : Session) (paths : List FilePath) : List Outcome × Session :=
  let (outcomes, s) := s.hostLoadAll paths
  (outcomes, { s with outcomes })

/-- Reports the errors of the last run; gives their number. -/
def report (s : Session) : Nat × Session :=
  let found := diagnosticsOf s.outcomes
  (found.length, { s with diagnostics := s.diagnostics.reportAll found })

end Session
end Loading
end TemplateModules
