import Dataflow.Evaluation.Config
import Dataflow.Event

/-!
# Options of the program

What can be chosen for every command: the engine that is asked for, the setting of the
context that carries it, whether values are logged, and the format of the log. They
are read from the command line and the environment (`Dataflow.CommandLine`), or from
JSON, where every option may be left out; an array of them starts with the engine.
-/

namespace Dataflow.CommandLine

/-- The formats of the log. -/
inductive LogFormat where
  /-- Lines to be read by people. -/
  | text
  /-- A JSON object a line. -/
  | json
deriving DecidableEq

namespace LogFormat

/-- The name of a format. -/
def name : LogFormat → String
  | text => "text"
  | json => "json"

/-- The format of a name. -/
def ofName? (s : String) : Option LogFormat :=
  if s = text.name then some text else if s = json.name then some json else none

end LogFormat

/-- What is chosen for evaluations. -/
structure EngineOptions where
  /-- The engine that is asked for. -/
  engine : Option String
  /-- The setting of the context that carries the engine. -/
  engineKey : String
  /-- Whether the inputs and outputs of steps are logged. -/
  traceValues : Bool
deriving DecidableEq

namespace EngineOptions

/-- The configuration of evaluations. -/
def config (options : EngineOptions) : Except ConfigError Config :=
  Config.ofOptions (some options.engineKey) (some options.traceValues)

/-- The context of evaluations. -/
def context (options : EngineOptions) (identity : Identity) : Context :=
  .ofSettings identity (options.engine.toList.map fun engine => (options.engineKey, .string engine))

/-- The event that reports the options. -/
def event (options : EngineOptions) : Event :=
  .configurationLoaded options.engine options.engineKey options.traceValues

/-- The options as data. -/
def toJson (options : EngineOptions) : Json :=
  .object [("engine", options.engine.elim .null .string),
    ("engine_key", .string options.engineKey), ("trace_values", .bool options.traceValues)]

/-- The engine that a value stands for; null stands for none. -/
def readEngine? : Json.Written → Option (Option String)
  | .null => some none
  | x => x.string?.map some

/-- The options that a JSON text holds. -/
def read? (s : String) : Option EngineOptions := do
  let written ← Json.Written.read? s.toList
  let [engine, engineKey, traceValues] ←
    written.fields? ["engine", "engine_key", "trace_values"] | none
  if engine.isNone && written.isArray then none
  let engine ← engine.elim (some none) readEngine?
  let engineKey ← engineKey.elim (some Context.defaultEngineKey) Json.Written.string?
  let traceValues ← traceValues.elim (some false) Json.Written.bool?
  return ⟨engine, engineKey, traceValues⟩

end EngineOptions

/-- What is chosen for the log. -/
structure LogOptions where
  /-- The format. -/
  format : LogFormat
deriving DecidableEq

namespace LogOptions

/-- The options as data. -/
def toJson (options : LogOptions) : Json :=
  .object [("log_format", .string options.format.name)]

/-- The options that a JSON text holds. -/
def read? (s : String) : Option LogOptions := do
  let written ← Json.Written.read? s.toList
  let [format] ← written.fields? ["log_format"] | none
  let format ← format.elim (some .text) fun x => x.choice? >>= LogFormat.ofName?
  return ⟨format⟩

end LogOptions

end Dataflow.CommandLine
