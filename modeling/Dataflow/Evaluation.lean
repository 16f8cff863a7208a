import Dataflow.Action.Validation
import Dataflow.Catalog
import Dataflow.Evaluation.Config
import Dataflow.Graph

/-!
# Evaluation

An action is evaluated in stages: the context is put under its first context inlet,
the inputs pass through its inlets, it is computed, and the results pass through its
outlets. A plain action is computed by the strategy for the engine that the context
names, or by the one that was registered first; a strategy that delegates has another
action evaluated with the same inputs. An algorithm is computed by evaluating its
steps, in order, on the values that its binds refer to.

Actions evaluate actions, so an evaluation has a limit on how deep they are nested. An
evaluation that reaches its limit is cut off (`Halt.tooDeep`), which is no result: the
others have the same result for every greater limit.

* `Evaluator.evaluate` evaluates an action.
* `Evaluator.chooseStrategy` picks the strategy of a plain action.
* `Evaluator.evaluateSteps` walks a graph, filling a table of values.
-/

namespace Dataflow

/-- How an evaluation ends without outputs. -/
inductive Halt where
  /-- It fails. -/
  | failed (e : Error)
  /-- It is cut off at the limit of its depth. -/
  | tooDeep

/-- What produced a value inside an algorithm. -/
inductive Slot where
  /-- An inlet of the algorithm, by index. -/
  | inlet (i : Nat)
  /-- An outlet of a step. -/
  | stepOutlet (port : StepPort)
deriving DecidableEq

/-- The values produced so far inside an algorithm, the latest first. -/
abbrev ValueTable := List (Slot × Value)

namespace ValueTable

/-- The table with values entered, each in the slot of the port of an action that it is
    named after. -/
def enter (a : Action) (direction : Direction) (slot : Nat → Slot) (table : ValueTable) :
    List (String × Value) → Except Error ValueTable
  | [] => .ok table
  | (name, v) :: rest => do
    let port ← a.port direction (.code name)
    enter a direction slot ((slot port.index, v) :: table) rest

/-- The value that a source stands for, if it was produced. -/
def resolve? (table : ValueTable) : Source → Option Value
  | .const v => some v
  | .inlet i => table.lookup (.inlet i)
  | .stepOutlet port => table.lookup (.stepOutlet port)

end ValueTable

/-- The evaluation of an action nested in another one, with its inputs. -/
abbrev Nested := Action → Record → Run Halt Record

/-- What stays the same throughout an evaluation. -/
structure Evaluator where
  /-- The catalog that strategies are looked up in. -/
  catalog : Catalog
  /-- The configuration. -/
  config : Config
  /-- The context. -/
  context : Context

namespace Evaluator

variable (ev : Evaluator)

/-- Goes on with a value, or fails. -/
def expect {α : Type} (x : Except Error α) : Run Halt α := .ofExcept (x.mapError .failed)

/-- The inputs with the context under the first context inlet. -/
def inject (a : Action) (inputs : Record) : Record :=
  match a.contextInlet? with
  | some port => inputs.insert port.parameter.name (.context ev.context)
  | none => inputs

/-- The strategy of a plain action: for the engine that the context names, or the one
    that was registered first. -/
def chooseStrategy (a : Action) : Except Error Strategy :=
  match ev.catalog.implementations.list a.code with
  | .error _ => .error (.noImplementation a.code)
  | .ok strategies =>
    match ev.context.engineUnder? ev.config.engineKey with
    | some engine =>
      match strategies.get? engine with
      | some s => .ok s
      | none => .error (.unknownEngine a.code engine)
    | none =>
      match strategies.first? with
      | some s => .ok s
      | none => .error (.noImplementation a.code)

/-- Computes a plain action by its strategy. -/
def dispatch (nested : Nested) (depth : Nat) (a : Action) (inputs : Record) :
    Run Halt Record := do
  let s ← expect (ev.chooseStrategy a)
  .log (.strategySelected a.code s.engine depth)
  match s.target with
  | .action target => nested target inputs
  | .callable _ =>
    let returned ← expect (s.call inputs)
    expect (returned.toOutputs a)

/-- Values by the names of parameters, which stand at the indices from `i` on, as `read`
    gives them one after the other. -/
def collect {m : Type → Type} [Monad m] (read : Nat → Parameter → m Value) (i : Nat) :
    List Parameter → m (List (String × Value))
  | [] => return []
  | p :: rest => do
    let v ← read i p
    let entries ← collect read (i + 1) rest
    return (p.name, v) :: entries

/-- The value that a source stands for. -/
def resolve (algorithm : Action) (graph : Graph) (table : ValueTable) (source : Source) :
    Except Error Value :=
  match table.resolve? source with
  | some v => .ok v
  | none => .error (.missingValue algorithm.code (graph.describeSource algorithm source))

/-- The argument of an inlet of a step: the context, or the value of its source. -/
def argument (algorithm : Action) (graph : Graph) (table : ValueTable) (s : Step) (i : Nat)
    (p : Parameter) : Except Error Value :=
  if p.type.isContext then .ok (.context ev.context)
  else
    match graph.sourceOf? (.stepInlet ⟨s.ordinal, i⟩) with
    | some source => resolve algorithm graph table source
    | none => .error (.unboundInlet algorithm.code s.ordinal s.action.code p.name)

/-- The arguments of a step, by the names of its inlets. -/
def arguments (algorithm : Action) (graph : Graph) (table : ValueTable) (s : Step) :
    Except Error (List (String × Value)) :=
  collect (ev.argument algorithm graph table s) 0 s.action.inlets.parameters

/-- Logs an event that carries values, if the configuration asks for it. -/
def logValues (e : Event) : Run Halt Unit := if ev.config.traceValues then .log e else pure ()

/-- Evaluates a step on the values of a table; gives its outputs. -/
def evaluateStep (nested : Nested) (depth : Nat) (algorithm : Action) (graph : Graph)
    (table : ValueTable) (s : Step) : Run Halt Record := do
  let entries ← expect (ev.arguments algorithm graph table s)
  let inputs : Record := .ofList entries
  .log (.executingStep algorithm.code s.ordinal s.action.code depth)
  ev.logValues (.stepInputs s.ordinal inputs.toJson)
  let outputs ← nested s.action inputs
  ev.logValues (.stepOutputs s.ordinal outputs.toJson)
  return outputs

/-- Evaluates steps one after the other; gives the table with what they produced. -/
def evaluateSteps (nested : Nested) (depth : Nat) (algorithm : Action) (graph : Graph) :
    List Step → ValueTable → Run Halt ValueTable
  | [], table => return table
  | s :: rest, table => do
    let outputs ← ev.evaluateStep nested depth algorithm graph table s
    let table ← expect
      (table.enter s.action .outward (fun i => .stepOutlet ⟨s.ordinal, i⟩) outputs.entries)
    evaluateSteps nested depth algorithm graph rest table

/-- The result of an algorithm for an outlet. -/
def result (algorithm : Action) (graph : Graph) (table : ValueTable) (i : Nat) :
    Except Error Value :=
  match graph.sourceOf? (.outlet i) with
  | some source => resolve algorithm graph table source
  | none =>
    .error (.missingValue algorithm.code (graph.describeDestination algorithm (.outlet i)))

/-- The results of an algorithm, by the names of its outlets. -/
def results (algorithm : Action) (graph : Graph) (table : ValueTable) :
    Except Error (List (String × Value)) :=
  collect (fun i _ => result algorithm graph table i) 0 algorithm.outlets.parameters

/-- Computes an algorithm by its graph. -/
def evaluateGraph (nested : Nested) (depth : Nat) (algorithm : Action) (graph : Graph)
    (inputs : Record) : Run Halt Record := do
  let table ← expect (ValueTable.enter algorithm .inward .inlet [] inputs.entries)
  let table ← ev.evaluateSteps nested depth algorithm graph graph.steps table
  let entries ← expect (results algorithm graph table)
  return .ofList entries

/-- Computes an action by its graph, or by its strategy if it is plain. -/
def compute (nested : Nested) (depth : Nat) (a : Action) (inputs : Record) : Run Halt Record :=
  match a.graph with
  | some graph => ev.evaluateGraph nested depth a graph inputs
  | none => ev.dispatch nested depth a inputs

/-- Evaluates an action at a depth, with so many levels left. -/
def evaluateAction : Nat → Nat → Action → Record → Run Halt Record
  | 0, _, _, _ => .fail .tooDeep
  | levels + 1, depth, a, inputs => do
    let inputs ← expect (a.validate .inward (ev.inject a inputs))
    let outputs ← ev.compute (evaluateAction levels (depth + 1)) depth a inputs
    expect (a.validate .outward outputs)

/-- Evaluates an action, nested to at most `limit` levels. -/
def evaluate (limit : Nat) (a : Action) (inputs : Record) : Run Halt Record := do
  .log (.evaluationStarted a.code a.isAlgorithm)
  let outputs ← ev.evaluateAction limit 0 a inputs
  .log (.evaluationCompleted a.code outputs.size)
  return outputs

end Evaluator

end Dataflow
