import Dataflow.Context
import Dataflow.Json.Reader
import Dataflow.Text.Blank

/-!
# Configuration of evaluations

Which setting of the context names the engine, and whether the values that steps take
and give are logged. A configuration that is put together from options has an engine
key that is not blank; one that is read from JSON may have any.
-/

namespace Dataflow

/-- The configuration of an evaluation. -/
structure Config where
  /-- The setting of the context that names the engine. -/
  engineKey : String
  /-- Whether the inputs and outputs of steps are logged. -/
  traceValues : Bool
deriving DecidableEq

/-- Why a configuration is refused. -/
inductive ConfigError where
  /-- The engine key is empty or white space. -/
  | blankEngineKey
deriving DecidableEq

/-- The text of a refusal. -/
def ConfigError.message : ConfigError → String
  | blankEngineKey => "engine_key must not be empty"

namespace Config

/-- The default configuration. -/
def default : Config := ⟨Context.defaultEngineKey, false⟩

/-- The configuration with these options, the default for those that are absent. -/
def ofOptions (engineKey : Option String) (traceValues : Option Bool) :
    Except ConfigError Config :=
  match engineKey with
  | some key =>
    if (Text.trimChars key.toList).isEmpty then .error .blankEngineKey
    else .ok ⟨key, traceValues.getD false⟩
  | none => .ok ⟨default.engineKey, traceValues.getD false⟩

/-- The configuration as data. -/
def toJson (config : Config) : Json :=
  .object [("engine_key", .string config.engineKey), ("trace_values", .bool config.traceValues)]

/-- The configuration that a JSON text holds; absent fields have their default. -/
def read? (s : String) : Option Config := do
  let written ← Json.Written.read? s.toList
  let [engineKey, traceValues] ← written.fields? ["engine_key", "trace_values"] | none
  let engineKey ← engineKey.elim (some default.engineKey) Json.Written.string?
  let traceValues ← traceValues.elim (some default.traceValues) Json.Written.bool?
  return ⟨engineKey, traceValues⟩

end Config

end Dataflow
