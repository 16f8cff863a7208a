import Dataflow.Strategy

/-!
# Events

What happened, for the log. An event is data; its level, the part of the program it
comes from, its message and its fields are derived, so that the log of a computation
is the list of its events and nothing else.
-/

namespace Dataflow

/-- How important an event is, the most important first. -/
inductive Level where
  /-- The program cannot go on. -/
  | error
  /-- Of interest to a user. -/
  | info
  /-- Of interest to a developer. -/
  | debug
  /-- Every step. -/
  | trace
deriving DecidableEq

namespace Level

/-- The word for a level. -/
def text : Level → String
  | error => "ERROR"
  | info => "INFO"
  | debug => "DEBUG"
  | trace => "TRACE"

/-- The place of a level, from the most important on. -/
def rank : Level → Nat
  | error => 0
  | info => 1
  | debug => 2
  | trace => 3

end Level

/-- The value of a field of an event. -/
inductive Field where
  /-- A text. -/
  | text (s : String)
  /-- A number. -/
  | number (n : Nat)
  /-- A truth value. -/
  | flag (b : Bool)

/-- The text of a field. -/
def Field.render : Field → String
  | text s => s
  | number n => String.ofList (Decimal.natText n)
  | flag b => if b then "true" else "false"

/-- The field as data. -/
def Field.toJson : Field → Json
  | text s => .string s
  | number n => .ofInt n
  | flag b => .bool b

/-- Something that happened. -/
inductive Event where
  /-- An action was declared. -/
  | actionDeclared (action : String) (inlets outlets : Nat)
  /-- A strategy was registered. -/
  | strategyRegistered (action : String) (engine : EngineKey)
  /-- A step was placed in an algorithm. -/
  | stepRegistered (algorithm : String) (step : Nat) (action : String)
  /-- An algorithm was built. -/
  | algorithmBuilt (algorithm : String) (steps binds : Nat)
  /-- The evaluation of an action started. -/
  | evaluationStarted (action : String) (algorithm : Bool)
  /-- A strategy was chosen for an action. -/
  | strategySelected (action : String) (engine : EngineKey) (depth : Nat)
  /-- A step of an algorithm is about to be evaluated. -/
  | executingStep (algorithm : String) (step : Nat) (action : String) (depth : Nat)
  /-- The inputs of the step. -/
  | stepInputs (step : Nat) (inputs : Json)
  /-- The outputs of the step. -/
  | stepOutputs (step : Nat) (outputs : Json)
  /-- The evaluation of an action succeeded with so many outputs. -/
  | evaluationCompleted (action : String) (outputs : Nat)
  /-- The program started. -/
  | buildInformation (version : String)
  /-- The configuration of the program is known. -/
  | configurationLoaded (engine : Option String) (engineKey : String) (traceValues : Bool)
  /-- The program evaluated an action. -/
  | evaluationFinished (action : String)
  /-- The program ends because of an error. -/
  | terminated (error : String)

namespace Event

/-- The level of an event. -/
def level : Event → Level
  | stepRegistered .. | strategySelected .. | executingStep .. | stepInputs ..
  | stepOutputs .. => .trace
  | actionDeclared .. | strategyRegistered .. | algorithmBuilt .. | evaluationStarted ..
  | evaluationCompleted .. | buildInformation .. => .debug
  | configurationLoaded .. | evaluationFinished .. => .info
  | terminated .. => .error

/-- The part of the program that an event comes from. -/
def target : Event → String
  | actionDeclared .. | strategyRegistered .. => "tessera_runtime::catalog"
  | stepRegistered .. | algorithmBuilt .. => "tessera_runtime::builder"
  | evaluationStarted .. | strategySelected .. | executingStep .. | stepInputs ..
  | stepOutputs .. | evaluationCompleted .. => "tessera_runtime::interpreter"
  | buildInformation .. => "tessera_cli::startup"
  | configurationLoaded .. => "tessera_cli::config"
  | evaluationFinished .. | terminated .. => "tessera_cli::run"

/-- The message of an event. -/
def message : Event → String
  | actionDeclared .. => "Action declared"
  | strategyRegistered .. => "Strategy registered"
  | stepRegistered .. => "Step registered"
  | algorithmBuilt .. => "Algorithm built"
  | evaluationStarted .. => "Evaluation started"
  | strategySelected .. => "Strategy selected"
  | executingStep .. => "Executing step"
  | stepInputs .. => "Step inputs"
  | stepOutputs .. => "Step outputs"
  | evaluationCompleted .. => "Evaluation completed"
  | buildInformation .. => "Build information"
  | configurationLoaded .. => "Runtime configuration"
  | evaluationFinished .. => "Evaluation finished"
  | terminated .. => "application terminated with error"

/-- The text of an optional name for a developer. -/
def optionText : Option String → String
  | none => "None"
  | some s => "Some(" ++ Text.quoted s ++ ")"

/-- The fields of an event, in order. -/
def fields : Event → List (String × Field)
  | actionDeclared action inlets outlets =>
    [("action", .text action), ("inlets", .number inlets), ("outlets", .number outlets)]
  | strategyRegistered action engine =>
    [("action", .text action), ("engine", .text engine.name)]
  | stepRegistered algorithm step action =>
    [("algorithm", .text algorithm), ("step", .number step), ("action", .text action)]
  | algorithmBuilt algorithm steps binds =>
    [("algorithm", .text algorithm), ("steps", .number steps), ("binds", .number binds)]
  | evaluationStarted action algorithm =>
    [("action", .text action), ("algorithm", .flag algorithm)]
  | strategySelected action engine depth =>
    [("action", .text action), ("engine", .text engine.name), ("depth", .number depth)]
  | executingStep algorithm step action depth =>
    [("algorithm", .text algorithm), ("step", .number step), ("action", .text action),
      ("depth", .number depth)]
  | stepInputs step inputs => [("step", .number step), ("inputs", .text inputs.text)]
  | stepOutputs step outputs => [("step", .number step), ("outputs", .text outputs.text)]
  | evaluationCompleted action outputs =>
    [("action", .text action), ("outputs", .number outputs)]
  | buildInformation version => [("version", .text version), ("features", .text "[]")]
  | configurationLoaded engine engineKey traceValues =>
    [("engine", .text (optionText engine)), ("engine_key", .text engineKey),
      ("trace_values", .flag traceValues)]
  | evaluationFinished action => [("action", .text action)]
  | terminated error => [("error", .text error)]

/-- The event as data. -/
def toJson (e : Event) : Json :=
  .object [("level", .string e.level.text),
    ("fields", .object
      (("message", .string e.message) :: e.fields.map fun (name, field) => (name, field.toJson))),
    ("target", .string e.target)]

/-- The event in one line of text. -/
def line (e : Event) : String :=
  s!"{e.level.text} {e.target}: {e.message}" ++
    String.join (e.fields.map fun (name, field) => s!" {name}={field.render}")

/-- Whether an event is at least as important as a level. -/
def isAtLeast (e : Event) (level : Level) : Bool := e.level.rank ≤ level.rank

end Event

end Dataflow
