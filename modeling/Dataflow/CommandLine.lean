import Dataflow.CommandLine.Input
import Dataflow.CommandLine.Options

/-!
# The command line

The arguments of the program: options, then a command with its own arguments. An
option that the arguments do not give is taken from the environment.

* `Invocation.ofArguments` reads the arguments. The command and its arguments are
  looked at before the last option in front of it, and the environment comes last.
-/

namespace Dataflow.CommandLine

/-- What the program is asked to do. -/
inductive Command where
  /-- To list what there is, with the graphs of the algorithms or without. -/
  | list (graph : Bool)
  /-- To evaluate an action. -/
  | run (code : String) (inputs : List (String × Json))

/-- The arguments of the program. -/
structure Invocation where
  /-- The options for evaluations. -/
  engine : EngineOptions
  /-- The options for the log. -/
  log : LogOptions
  /-- The command. -/
  command : Command

/-! ## The commands -/

/-- The option that asks for the help. -/
def helpFlag {σ : Type} : Flag σ := ⟨"help", some 'h', .stop .helpRequested⟩

/-- The option that says whether graphs are listed. -/
def graphFlag : Flag (Option Bool) :=
  ⟨"graph", none, .switch (setOnce id (fun _ => some) (fun _ => .ok true) "")⟩

/-- The command that the arguments of a listing give. -/
def readList (args : List String) : Except UsageError Command := do
  let grammar : Grammar (Option Bool) := ⟨[graphFlag, helpFlag], [], fun _ _ => none⟩
  let scanned ← grammar.scan args .nothing none
  return .list ((← scanned.pending.settle scanned.state).getD false)

/-- The arguments of an evaluation that have been read. -/
structure RunArguments where
  /-- The code of the action. -/
  code : Option String
  /-- The inputs. -/
  inputs : List (String × Json)

/-- The option that gives an input. -/
def inputFlag : Flag RunArguments :=
  ⟨"input", some 'i', .value fun s given => do
    return { given with inputs := given.inputs ++ [← readInput s] }⟩

/-- The command that the arguments of an evaluation give. -/
def readRun (args : List String) : Except UsageError Command := do
  let grammar : Grammar RunArguments :=
    ⟨[inputFlag, helpFlag], [], fun s given =>
      if given.code.isSome then none else some { given with code := some s }⟩
  let scanned ← grammar.scan args .nothing ⟨none, []⟩
  let given ← scanned.pending.settle scanned.state
  match given.code with
  | some code => return .run code given.inputs
  | none => throw .missingArgument

/-- The names of the commands. -/
def commandNames : List String := ["list", "run", "help"]

/-- The command of a name with its arguments. The help can be asked for one command at
    most. -/
def readCommand (name : String) (args : List String) : Except UsageError Command :=
  match name with
  | "list" => readList args
  | "run" => readRun args
  | _ =>
    match args with
    | [] => .error .helpRequested
    | [about] =>
      .error (if about ∈ commandNames then .helpRequested else .unknownSubcommand)
    | _ => .error .unknownSubcommand

/-! ## The options -/

/-- The options that were given. -/
structure Given where
  /-- The engine. -/
  engine : Option String
  /-- The setting that carries the engine. -/
  engineKey : Option String
  /-- Whether values are logged. -/
  traceValues : Option Bool
  /-- The format of the log. -/
  logFormat : Option LogFormat
deriving DecidableEq

/-- No options. -/
def Given.nothing : Given := ⟨none, none, none, none⟩

/-- The format of the log that a value names. -/
def readLogFormat (s : String) : Except UsageError LogFormat :=
  match LogFormat.ofName? s with
  | some format => .ok format
  | none => .error .invalidValue

/-- The truth value that a value names. -/
def readBool (s : String) : Except UsageError Bool :=
  if s = "true" then .ok true else if s = "false" then .ok false else .error .invalidValue

/-- The grammar of the arguments in front of the command. -/
def grammar : Grammar Given where
  flags := [
    ⟨"engine", none, .value (setOnce Given.engine (fun g x => { g with engine := some x }) .ok)⟩,
    ⟨"engine-key", none,
      .value (setOnce Given.engineKey (fun g x => { g with engineKey := some x }) .ok)⟩,
    ⟨"trace-values", none,
      .switch (setOnce Given.traceValues (fun g x => { g with traceValues := some x })
        (fun _ => .ok true) "")⟩,
    ⟨"log-format", none,
      .value (setOnce Given.logFormat (fun g x => { g with logFormat := some x })
        readLogFormat)⟩,
    helpFlag,
    ⟨"version", some 'V', .stop .versionRequested⟩]
  subcommands := commandNames
  word _ _ := none

/-- The variables of the environment that stand for options. -/
def variableNames : List String :=
  ["TESSERA_ENGINE", "TESSERA_ENGINE_KEY", "TESSERA_TRACE_VALUES", "TESSERA_LOG_FORMAT"]

/-- The options with those that are absent taken from the environment. -/
def Given.fill (given : Given) (environment : String → Option String) :
    Except UsageError Given := do
  let fromEnvironment {α : Type} (x : Option α) (variableName : String)
      (read : String → Except UsageError α) : Except UsageError (Option α) :=
    match x with
    | some a => .ok (some a)
    | none => (environment variableName).mapM read
  return {
    engine := ← fromEnvironment given.engine "TESSERA_ENGINE" .ok
    engineKey := ← fromEnvironment given.engineKey "TESSERA_ENGINE_KEY" .ok
    traceValues := ← fromEnvironment given.traceValues "TESSERA_TRACE_VALUES" readBool
    logFormat := ← fromEnvironment given.logFormat "TESSERA_LOG_FORMAT" readLogFormat }

/-- The options for evaluations. -/
def Given.engineOptions (given : Given) : EngineOptions :=
  ⟨given.engine, given.engineKey.getD Context.defaultEngineKey, given.traceValues.getD false⟩

/-- The options for the log. -/
def Given.logOptions (given : Given) : LogOptions := ⟨given.logFormat.getD .text⟩

/-- Reads the arguments of the program. -/
def Invocation.ofArguments (environment : String → Option String) (args : List String) :
    Except UsageError Invocation := do
  let scanned ← grammar.scan args .nothing .nothing
  let command ← scanned.subcommand.mapM fun (name, rest) => readCommand name rest
  let given ← (← scanned.pending.settle scanned.state).fill environment
  match command with
  | some command => return ⟨given.engineOptions, given.logOptions, command⟩
  | none => throw (if given = .nothing then .nothingGiven else .missingSubcommand)

end Dataflow.CommandLine
