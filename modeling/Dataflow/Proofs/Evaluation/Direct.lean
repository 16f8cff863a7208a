import Dataflow.Proofs.Catalog.Consistent
import Dataflow.Proofs.Evaluation.Ambient
import Dataflow.Proofs.Evaluation.Selection

/-!
# Direct execution

There are two ways to have a callable called. An evaluation chooses it by the engine that the
context names and shapes what it returns after the action that is evaluated; a catalog executes it
under a code and an engine and shapes what it returns after the action that it was registered
with. If both actions have the same outlets in name, the first way is the second one between the
validation of the inputs and that of the outputs (`returns_iff_execute`).
-/

namespace Dataflow

/-- What is returned is shaped by the code and the names of the outlets. -/
theorem Returned.toOutputs_congr (returned : Returned) {a b : Action} (hcode : a.code = b.code)
    (hnames : a.outlets.names = b.outlets.names) :
    returned.toOutputs a = returned.toOutputs b := by
  have hsize : a.outlets.size = b.outlets.size := by
    rw [← Ports.length_names, ← Ports.length_names, hnames]
  rw [toOutputs, toOutputs, hcode, hsize, hnames]

namespace Evaluator

variable (ev : Evaluator) {a : Action} {engine : EngineKey} {s : Strategy} {c : Callable}

/-- Executes the strategy of an action for an engine between the inlets and the outlets of the
    action, the context being put under its first context inlet. -/
def executeBetweenPorts (a : Action) (engine : EngineKey) (inputs : Record) :
    Except Error Record := do
  let validated ← a.validate .inward (ev.inject a inputs)
  let outputs ← ev.catalog.execute a.code engine validated
  a.validate .outward outputs

variable {ev}

/-- The engine that the context names decides the choice. -/
theorem chooseStrategy_of_get (hs : ev.catalog.implementations.get a.code engine = .ok s)
    (hengine : ev.engine? = some engine) : ev.chooseStrategy a = .ok s := by
  rw [chooseStrategy_eq_ok_iff, chosen?, hengine]
  exact StrategyPool.get_eq_ok_iff.1 hs

section

variable (hplain : a.graph = none)
  (hs : ev.catalog.implementations.get a.code engine = .ok s) (htarget : s.target = .callable c)
  (hcode : s.action.code = a.code) (hnames : s.action.outlets.names = a.outlets.names)
  (hengine : ev.engine? = some engine)

include hplain hs htarget hcode hnames hengine

/-- A plain action is computed by executing the callable of its strategy. -/
theorem result_compute_of_callable (nested : Nested) (d : Nat) (inputs : Record) :
    (ev.compute nested d a inputs).result =
      (ev.catalog.execute a.code engine inputs).mapError .failed := by
  rw [result_compute_of_call hplain (chooseStrategy_of_get hs hengine) htarget, Catalog.execute, hs]
  refine congrArg (Except.mapError Halt.failed) (bind_congr fun returned => ?_)
  rw [returned.toOutputs_congr hcode hnames]

/-- Its evaluation nests nothing, and returns what the execution between its ports gives. -/
theorem returns_executeBetweenPorts (inputs : Record) :
    ev.Returns a inputs (ev.executeBetweenPorts a engine inputs) := by
  refine returns_of_evaluateAction (n := 1) (d := 0) ?_
  rw [evaluateAction, executeBetweenPorts, Run.result_bind, Except.mapError_bind]
  refine bind_congr fun validated => ?_
  rw [Run.result_bind, Except.mapError_bind,
    result_compute_of_callable hplain hs htarget hcode hnames hengine]
  rfl

end

end Evaluator

/-- After commands on an empty catalog, some of which may have failed: if the strategy that is
    registered under the code of a plain action and an engine is a callable, registered with an
    action whose outlets have the same names in the same order, and the context names the engine,
    then the evaluation of the action returns what comes of putting the context under its first
    context inlet, validating the inputs, executing the strategy directly and validating the
    outputs, up to the first error. -/
theorem returns_iff_execute (commands : List Catalog.Command) {config : Config} {context : Context}
    {a : Action} {engine : EngineKey} {s : Strategy} {c : Callable} (hplain : a.graph = none)
    (hs : ((∅ : Catalog).after commands).implementations.get a.code engine = .ok s)
    (htarget : s.target = .callable c) (hnames : s.action.outlets.names = a.outlets.names)
    (hengine : context.engineUnder? config.engineKey = some engine) (inputs : Record)
    (r : Except Error Record) :
    let ev : Evaluator := ⟨(∅ : Catalog).after commands, config, context⟩
    ev.Returns a inputs r ↔ ev.executeBetweenPorts a engine inputs = r := by
  intro ev
  -- A strategy is registered with an action of the code that it is found under.
  have hcode : s.action.code = a.code :=
    ((Catalog.consistent_after commands).strategies _ _ _ (StrategyPool.get_eq_ok_iff.1 hs)).1
  have hchosen : ev.catalog.implementations.get a.code engine = .ok s := hs
  have hnamed : ev.engine? = some engine := hengine
  have hreturns : ev.Returns a inputs (ev.executeBetweenPorts a engine inputs) :=
    Evaluator.returns_executeBetweenPorts hplain hchosen htarget hcode hnames hnamed inputs
  exact ⟨hreturns.unique, fun h => h ▸ hreturns⟩

namespace Relay

/-- The evaluator of the registered strategies, in a context that asks for the first engine. -/
def hostEvaluator : Evaluator :=
  ⟨(∅ : Catalog).after registrations, .default, .ofSettings 0 [("engine", .string "host")]⟩

end Relay

/-- The join is evaluated as its callable is executed, with the context; without its inputs it is
    not called. -/
theorem returns_iff_execute_join :
    Relay.hostEvaluator.catalog.implementations.get "Join" Relay.engine =
        .ok ⟨Relay.join, Relay.engine, .callable Relay.pair⟩ ∧
      Relay.hostEvaluator.Returns Relay.join Relay.halves
        (.ok (Relay.single "res" (.array [.bool true, .null]))) ∧
      Relay.hostEvaluator.Returns Relay.join ∅
        (.error (.mismatchedKeys "Join" .inward [] ["left", "right"])) := by
  have hreturns (inputs : Record) (r : Except Error Record) :
      Relay.hostEvaluator.Returns Relay.join inputs r ↔
        Relay.hostEvaluator.executeBetweenPorts Relay.join Relay.engine inputs = r :=
    returns_iff_execute Relay.registrations (a := Relay.join)
      (s := ⟨Relay.join, Relay.engine, .callable Relay.pair⟩) rfl rfl rfl rfl rfl inputs r
  exact ⟨rfl, (hreturns _ _).2 rfl, (hreturns _ _).2 rfl⟩

end Dataflow
