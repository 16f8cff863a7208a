import Dataflow.Strategy

/-!
# Pools

The registries that a catalog is made of. A pool of actions holds each action under
its code; a pool of strategies holds, by the code of an action, the strategies by
engine. Entries are never replaced or removed and keep the order in which they were
registered, so that the first engine of an action can serve as its default.

* `ActionPool.register` and `StrategyPool.register` refuse what is registered already.
* `StrategyPool.add` is the registration of a strategy with what it leaves behind.
-/

namespace Dataflow

/-- Actions by code; `entity` is what an error calls them. -/
structure ActionPool (entity : Entity) where
  /-- The actions under their codes. -/
  entries : OrderedMap String Action

namespace ActionPool

variable {entity : Entity}

instance : EmptyCollection (ActionPool entity) := ⟨⟨∅⟩⟩

/-- Whether a code is registered. -/
def contains (pool : ActionPool entity) (code : String) : Bool := pool.entries.contains code

/-- Checks that a code is not registered. -/
def ensureVacant (pool : ActionPool entity) (code : String) : Except Error Unit :=
  if pool.contains code then .error (.alreadyExists entity code) else .ok ()

/-- The pool with an action at its end, unless the code is registered. -/
def register (pool : ActionPool entity) (a : Action) : Except Error (ActionPool entity) := do
  pool.ensureVacant a.code
  return ⟨pool.entries.insert a.code a⟩

/-- The action that is registered under a code. -/
def get (pool : ActionPool entity) (code : String) : Except Error Action :=
  match pool.entries.get? code with
  | some a => .ok a
  | none => .error (.notExists entity code)

/-- The actions, in order. -/
def toList (pool : ActionPool entity) : List Action := pool.entries.values

end ActionPool

/-- Strategies by the code of the action, then by engine. -/
structure StrategyPool where
  /-- The strategies by engine, by the code of the action. -/
  entries : OrderedMap String (OrderedMap EngineKey Strategy)

namespace StrategyPool

instance : EmptyCollection StrategyPool := ⟨⟨∅⟩⟩

/-- The strategies of an action by engine, empty if there are none. -/
def strategies (pool : StrategyPool) (code : String) : OrderedMap EngineKey Strategy :=
  (pool.entries.get? code).getD ∅

/-- The pool with a place for the strategies of an action: at the end and empty, if there is
    none yet. -/
def reserve (pool : StrategyPool) (code : String) : StrategyPool :=
  ⟨pool.entries.insert code (pool.strategies code)⟩

/-- Puts a strategy at the end of those of its action, unless one is registered for the
    engine. The place for the strategies of the action is made first; it stays when that
    fails. -/
def add (pool : StrategyPool) (s : Strategy) : Except Error Unit × StrategyPool :=
  let pool := pool.reserve s.action.code
  let engines := pool.strategies s.action.code
  if engines.contains s.engine then (.error (.engineAlreadyExists s.action.code s.engine), pool)
  else (.ok (), ⟨pool.entries.insert s.action.code (engines.insert s.engine s)⟩)

/-- The pool with a strategy at the end of those of its action, unless one is
    registered for the engine. -/
def register (pool : StrategyPool) (s : Strategy) : Except Error StrategyPool :=
  match pool.add s with
  | (.ok _, left) => .ok left
  | (.error e, _) => .error e

/-- The strategies of an action that has some, by engine. -/
def list (pool : StrategyPool) (code : String) : Except Error (OrderedMap EngineKey Strategy) :=
  match pool.entries.get? code with
  | some engines => if engines.isEmpty then .error (.notExists .implementation code) else .ok engines
  | none => .error (.notExists .implementation code)

/-- The strategy of an action for an engine. -/
def get (pool : StrategyPool) (code : String) (engine : EngineKey) : Except Error Strategy := do
  match (← pool.list code).get? engine with
  | some s => return s
  | none => throw (.engineNotExists code engine)

/-- The engines of an action, in order. -/
def engines (pool : StrategyPool) (code : String) : List EngineKey := (pool.strategies code).keys

/-- The strategy of an action that was registered first. -/
def first? (pool : StrategyPool) (code : String) : Option Strategy :=
  (pool.strategies code).first?

end StrategyPool

end Dataflow
