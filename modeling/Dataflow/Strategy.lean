import Dataflow.Action

/-!
# Strategies

A strategy computes an action under the name of an engine. Its target is a *callable*,
a host function with a signature of argument names, or another action that is
evaluated in place of the first.

* `Strategy.call` calls a callable with exactly the arguments of its signature.
* `Returned.toOutputs` names what a callable returned after the outlets of the action.
-/

namespace Dataflow

/-- What a host function returned. -/
inductive Returned where
  /-- Nothing. -/
  | nothing
  /-- One value. -/
  | single (v : Value)
  /-- Values in the order of the outlets. -/
  | sequence (vs : List Value)
  /-- Values by the names of the outlets. -/
  | named (r : Record)

/-- The outputs of an action for what a host function returned. An action without
    outlets has no outputs whatever was returned; named values are taken as they are,
    others must be as many as the outlets. -/
def Returned.toOutputs (returned : Returned) (a : Action) : Except Error Record :=
  if a.outlets.size = 0 then .ok ∅
  else
    let positional (vs : List Value) : Except Error Record :=
      if vs.length = a.outlets.size then .ok (.ofList (a.outlets.names.zip vs))
      else .error (.resultCountMismatch a.code a.outlets.size vs.length)
    match returned with
    | .nothing => positional []
    | .single v => positional [v]
    | .sequence vs => positional vs
    | .named r => .ok r

/-- A host function and the names of its arguments. -/
structure Callable where
  /-- The names of the arguments. -/
  signature : List String
  /-- The function. -/
  body : Record → Except Failure Returned

namespace Callable

/-- Whether the names of the arguments are those of the signature, in any order. -/
def accepts (c : Callable) (args : Record) : Bool :=
  c.signature.all (· ∈ args.keys) && args.keys.all (· ∈ c.signature)

/-- The text of a callable for a developer. -/
def tagged (c : Callable) : String := "Callable(" ++ ", ".intercalate c.signature ++ ")"

end Callable

/-- What a strategy runs. -/
inductive Target where
  /-- A host function. -/
  | callable (c : Callable)
  /-- Another action, evaluated with the same inputs. -/
  | action (a : Action)

/-- A way to compute an action, under the name of an engine. -/
structure Strategy where
  /-- The action. -/
  action : Action
  /-- The engine. -/
  engine : EngineKey
  /-- What is run. -/
  target : Target

namespace Strategy

/-- Calls the callable of a strategy. -/
def call (s : Strategy) (args : Record) : Except Error Returned :=
  match s.target with
  | .action target => .error (.notCallable s.action.code s.engine target.code)
  | .callable c =>
    if c.accepts args then
      match c.body args with
      | .ok returned => .ok returned
      | .error failure => .error (.executionFailed s.action.code s.engine failure)
    else .error (.signatureMismatch s.action.code s.engine c.signature args.keys)

/-- The text of a strategy. -/
def text (s : Strategy) : String :=
  s!"Strategy `{s.action.code}` [{s.engine.name}]: " ++
    match s.target with
    | .callable _ => "callable"
    | .action target => s!"`{target.code}`"

end Strategy

end Dataflow
