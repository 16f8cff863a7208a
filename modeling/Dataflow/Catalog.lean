import Dataflow.Catalog.Pool
import Dataflow.Run

/-!
# Catalogs

A catalog holds the actions, the algorithms among them and the strategies of one
library. It is filled by *registrations*, computations that may change it, log
events and fail; what a registration changed before it failed stays changed.

* `Catalog.declare`, `Catalog.implement` and `Catalog.delegate` register actions and
  strategies; algorithms are registered when they are built (`Dataflow.Builder`).
* `Catalog.execute` calls a strategy as it stands, without looking at the ports.
-/

namespace Dataflow

/-- The registries of one library. -/
structure Catalog where
  /-- Every action, algorithms included. -/
  actions : ActionPool .action
  /-- The actions that are defined by a graph. -/
  algorithms : ActionPool .algorithm
  /-- The strategies. -/
  implementations : StrategyPool

instance : EmptyCollection Catalog := ⟨⟨∅, ∅, ∅⟩⟩

/-- A computation that may change a catalog. -/
def Registration (α : Type) : Type := Catalog → Run Error α × Catalog

namespace Registration

variable {α β : Type}

/-- One registration after the other, on the catalog that the first one left; the
    second starts only if the first succeeded. -/
def bind (x : Registration α) (f : α → Registration β) : Registration β := fun c =>
  let (r, c) := x c
  match r.result with
  | .ok a =>
    let (r', c) := f a c
    (⟨r.events ++ r'.events, r'.result⟩, c)
  | .error e => (⟨r.events, .error e⟩, c)

instance : Monad Registration where
  pure a := fun c => (pure a, c)
  bind := bind

/-- Fails with the error of a check, or goes on with its value. -/
def check (f : Catalog → Except Error α) : Registration α := fun c => (.ofExcept (f c), c)

/-- Changes the catalog unless that fails. -/
def update (f : Catalog → Except Error Catalog) : Registration Unit := fun c =>
  match f c with
  | .ok c' => (pure (), c')
  | .error e => (.fail e, c)

/-- Tries something that leaves a catalog whether it succeeds or fails. -/
def attempt (f : Catalog → Except Error α × Catalog) : Registration α := fun c =>
  let (r, left) := f c
  (.ofExcept r, left)

/-- Goes on from a run that leaves the catalog alone. -/
def ofRun (r : Run Error α) : Registration α := fun c => (r, c)

/-- Logs an event. -/
def log (e : Event) : Registration Unit := ofRun (.log e)

end Registration

namespace Catalog

/-- Checks that a code is taken neither by an action nor by an algorithm. -/
def ensureVacant (c : Catalog) (code : String) : Except Error Unit := do
  c.actions.ensureVacant code
  c.algorithms.ensureVacant code

/-- The action or algorithm under a code. -/
def action (c : Catalog) (code : String) : Except Error Action := c.actions.get code

/-- The algorithm under a code. -/
def algorithm (c : Catalog) (code : String) : Except Error Action := c.algorithms.get code

/-- Adds an action to the actions. -/
def addAction (a : Action) : Registration Unit :=
  .update fun c => return { c with actions := ← c.actions.register a }

/-- Adds an algorithm to the algorithms. -/
def addAlgorithm (a : Action) : Registration Unit :=
  .update fun c => return { c with algorithms := ← c.algorithms.register a }

/-- Adds a strategy to those of its action. -/
def addStrategy (s : Strategy) : Registration Unit :=
  .attempt fun c =>
    let (r, pool) := c.implementations.add s
    (r, { c with implementations := pool })

/-- Declares a plain action. -/
def declare (code : String) (inlets outlets : List Parameter) : Registration Action := do
  let a ← .check fun _ => Action.ofParameters code inlets outlets
  .check fun c => c.ensureVacant a.code
  addAction a
  .log (.actionDeclared a.code a.inlets.size a.outlets.size)
  return a

/-- Registers a strategy of an action that is known by its code. -/
def registerStrategy (s : Strategy) : Registration Unit := do
  let _ ← .check fun c => c.actions.get s.action.code
  addStrategy s
  .log (.strategyRegistered s.action.code s.engine)

/-- Registers a callable as the strategy of an action for an engine. -/
def implement (a : Action) (engine : EngineKey) (callable : Callable) : Registration Unit :=
  registerStrategy ⟨a, engine, .callable callable⟩

/-- Registers another action as the strategy of an action for an engine. -/
def delegate (a : Action) (engine : EngineKey) (target : Action) : Registration Unit :=
  registerStrategy ⟨a, engine, .action target⟩

/-- Registers a finished algorithm among the actions and the algorithms. -/
def insertAlgorithm (a : Action) : Registration Unit := do
  .check fun c => c.ensureVacant a.code
  addAction a
  addAlgorithm a

/-- Calls the strategy of a code for an engine with arguments that no port has seen. -/
def execute (c : Catalog) (code : String) (engine : EngineKey) (args : Record) :
    Except Error Record := do
  let s ← c.implementations.get code engine
  let returned ← s.call args
  returned.toOutputs s.action

end Catalog

end Dataflow
