import Dataflow.Arithmetic
import Dataflow.CommandLine
import Dataflow.Evaluation

/-!
# The program

What the program does with its arguments: it lists the library of arithmetic or
evaluates one of its actions. What comes of it is data (`Outcome`): an exit code, what
goes to the standard output, what went wrong, and the log.

* `Outcome.ofArguments` runs the program.
* `listing` is the text of a catalog.
* `Problem.chain` says what went wrong, and why, from the outside in.
-/

namespace Dataflow.Program

open CommandLine

/-- The name of the program. -/
def name : String := "tessera"

/-- The version of the program. -/
def version : String := "0.1.0"

/-- Why the program fails. -/
inductive Problem where
  /-- The arguments of the program are refused. -/
  | usage (e : UsageError)
  /-- The library cannot be declared. -/
  | library (e : Error)
  /-- The action is unknown. -/
  | unknownAction (e : Error)
  /-- The options for evaluations are refused. -/
  | configuration (e : ConfigError)
  /-- The evaluation of an action ends without outputs. -/
  | evaluation (code : String) (halt : Halt)

namespace Problem

/-- The texts of an error and of the failure behind it. -/
def errorChain (e : Error) : List String :=
  e.message :: e.failure?.toList.map Failure.message

/-- The texts of a problem and of what is behind it, from the outside in. -/
def chain : Problem → List String
  | usage e => [e.message]
  | library e => "failed to declare the bundled library" :: errorChain e
  | unknownAction e => errorChain e
  | configuration e => ["invalid interpreter configuration", e.message]
  | evaluation code (.failed e) => s!"failed to evaluate `{code}`" :: errorChain e
  | evaluation code .tooDeep => [s!"failed to evaluate `{code}`", "actions are nested too deeply"]

/-- The outermost text. -/
def text (p : Problem) : String := p.chain.headD ""

/-- The line that reports a problem with all that is behind it. -/
def report (p : Problem) : String := "Error: " ++ ": ".intercalate p.chain ++ "\n"

end Problem

/-- The library. -/
def library : Run Problem Catalog :=
  let (declared, catalog) := Arithmetic.register ∅
  declared.mapError .library >>= fun _ => pure catalog

/-! ## Listing -/

/-- The line of an action: its ports and its engines. -/
def actionLine (catalog : Catalog) (a : Action) : String :=
  let engines := (catalog.implementations.engines a.code).map EngineKey.name
  if engines.isEmpty then a.text ++ "\n"
  else a.text ++ " [" ++ ", ".intercalate engines ++ "]\n"

/-- The steps and binds of an algorithm, after an empty line. -/
def graphLines (a : Action) : String := (a.graph.map fun g => "\n" ++ g.text a).getD ""

/-- The text of a catalog, with the graphs of the algorithms or without. -/
def listing (catalog : Catalog) (graph : Bool) : String :=
  String.join (catalog.actions.toList.map (actionLine catalog)) ++
    if graph then String.join (catalog.algorithms.toList.map graphLines) else ""

/-! ## Evaluating -/

/-- How deep the actions of the library may be nested, which is deeper than they
    are. -/
def depthLimit : Nat := 16

/-- Evaluates an action and renders its outputs. -/
def evaluate (catalog : Catalog) (options : EngineOptions) (code : String)
    (inputs : List (String × Json)) : Run Problem String := do
  let a ← .ofExcept ((catalog.action code).mapError .unknownAction)
  let config ← .ofExcept (options.config.mapError .configuration)
  let evaluator : Evaluator := ⟨catalog, config, options.context 0⟩
  let inputs : Record := .ofList (inputs.map fun (name, j) => (name, .json j))
  let outputs ← (evaluator.evaluate depthLimit a inputs).mapError (.evaluation code)
  .log (.evaluationFinished a.code)
  return outputs.toJson.prettyText ++ "\n"

/-- Carries out a command; gives what goes to the standard output. -/
def carryOut (invocation : Invocation) : Run Problem String := do
  .log (.buildInformation version)
  .log invocation.engine.event
  let catalog ← library
  match invocation.command with
  | .list graph => return listing catalog graph
  | .run code inputs => evaluate catalog invocation.engine code inputs

/-! ## Outcomes -/

/-- What comes of a run of the program. -/
structure Outcome where
  /-- The exit code. -/
  code : Nat
  /-- What goes to the standard output. -/
  output : String
  /-- What went wrong. -/
  problem : Option Problem
  /-- The log. -/
  events : List Event
  /-- The format of the log. -/
  logFormat : LogFormat

namespace Outcome

/-- The outcome without a command to carry out. -/
def ofUsage : UsageError → Outcome
  | .helpRequested => ⟨0, s!"Usage: {name} [OPTIONS] <COMMAND>\n", none, [], .text⟩
  | .versionRequested => ⟨0, s!"{name} {version}\n", none, [], .text⟩
  | e => ⟨2, "", some (.usage e), [], .text⟩

/-- The outcome of a command. -/
def ofCommand (invocation : Invocation) : Outcome :=
  let carried := carryOut invocation
  let format := invocation.log.format
  match carried.result with
  | .ok output => ⟨0, output, none, carried.events, format⟩
  | .error problem =>
    ⟨1, "", some problem, carried.events ++ [.terminated problem.text], format⟩

/-- Runs the program on its arguments. -/
def ofArguments (environment : String → Option String) (args : List String) : Outcome :=
  match Invocation.ofArguments environment args with
  | .ok invocation => ofCommand invocation
  | .error e => ofUsage e

/-- The events at least as important as a level. -/
def eventsAt (outcome : Outcome) (level : Level) : List Event :=
  outcome.events.filter (·.isAtLeast level)

/-- The lines of the events at least as important as a level. -/
def log (outcome : Outcome) (level : Level) : String :=
  let line (e : Event) : String :=
    match outcome.logFormat with
    | .text => e.line ++ "\n"
    | .json => e.toJson.text ++ "\n"
  String.join ((outcome.eventsAt level).map line)

/-- The report of what went wrong. -/
def report (outcome : Outcome) : String := (outcome.problem.map Problem.report).getD ""

/-- What goes to the standard error: the log from a level on, or the report if nothing
    is ever logged. -/
def errorOutput (outcome : Outcome) (level : Option Level) : String :=
  match level with
  | some level => if outcome.events.isEmpty then outcome.report else outcome.log level
  | none => outcome.report

end Outcome

end Dataflow.Program
