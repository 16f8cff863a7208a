import Dataflow.Error

/-!
# Actions

An action is a named contract: ordered inlets and ordered outlets. An action that is
defined by a *graph* is an algorithm. A graph places actions as *steps*, in order,
and *binds* say where the value of every inlet of a step and of every outlet of the
algorithm comes from. The actions placed in a graph may have graphs of their own.

* `Action.ofParameters` makes an action from two lists of parameters.
* `Action.port` looks a port up by its code or its index.
-/

namespace Dataflow

/-- A port of a step. -/
structure StepPort where
  /-- The ordinal of the step. -/
  step : Nat
  /-- The index of the port. -/
  port : Nat
deriving DecidableEq

/-- Where a value comes from. -/
inductive Source where
  /-- An inlet of the algorithm, by index. -/
  | inlet (i : Nat)
  /-- An outlet of a step. -/
  | stepOutlet (port : StepPort)
  /-- A literal value. -/
  | const (v : Value)

/-- Where a value goes. -/
inductive Destination where
  /-- An inlet of a step. -/
  | stepInlet (port : StepPort)
  /-- An outlet of the algorithm, by index. -/
  | outlet (i : Nat)
deriving DecidableEq

mutual

/-- A named contract of inlets and outlets. -/
structure Action where
  /-- The code, the name under which the action is registered. -/
  code : String
  /-- The inlets. -/
  inlets : Ports
  /-- The outlets. -/
  outlets : Ports
  /-- The graph, if the action is an algorithm. -/
  graph : Option Graph

/-- The steps of an algorithm and the binds between their ports. -/
structure Graph where
  /-- The steps, in order. -/
  steps : List Step
  /-- The sources by destination, in the order in which they were bound. -/
  binds : OrderedMap Destination Source

/-- An action placed in an algorithm. -/
structure Step where
  /-- The code of the algorithm. -/
  algorithm : String
  /-- The place among the steps. -/
  ordinal : Nat
  /-- The action. -/
  action : Action

end

/-- A port of an action. -/
structure Port where
  /-- The code of the action. -/
  action : String
  /-- The direction. -/
  direction : Direction
  /-- The index. -/
  index : Nat
  /-- The parameter. -/
  parameter : Parameter

/-- The text of a port. -/
def Port.text (p : Port) : String :=
  s!"{p.direction.text}let `{p.parameter.name}` of `{p.action}`"

namespace Action

/-- The plain action with these parameters; the inlets are looked at first for a
    repeated name. -/
def ofParameters (code : String) (inlets outlets : List Parameter) : Except Error Action :=
  match Ports.ofParameters inlets with
  | .error name => .error (.duplicatePort code .inward name)
  | .ok inlets =>
    match Ports.ofParameters outlets with
    | .error name => .error (.duplicatePort code .outward name)
    | .ok outlets => .ok ⟨code, inlets, outlets, none⟩

/-- Whether the action is defined by a graph. -/
def isAlgorithm (a : Action) : Bool := a.graph.isSome

/-- The ports of one direction. -/
def ports (a : Action) : Direction → Ports
  | .inward => a.inlets
  | .outward => a.outlets

/-- The port with an index. -/
def portAt? (a : Action) (direction : Direction) (i : Nat) : Option Port :=
  (a.ports direction).parameters[i]?.map (⟨a.code, direction, i, ·⟩)

/-- The port under an address. -/
def port (a : Action) (direction : Direction) (key : PortKey) : Except Error Port :=
  match (a.ports direction).indexOf? key >>= a.portAt? direction with
  | some port => .ok port
  | none => .error (.unknownPort s!"action `{a.code}`" direction key)

/-- The first inlet that receives the context. -/
def contextInlet? (a : Action) : Option Port := a.inlets.contextIndex? >>= a.portAt? .inward

/-- The text of an action. -/
def text (a : Action) : String :=
  (if a.isAlgorithm then "Algorithm" else "Action") ++ s!" `{a.code}`(" ++
    ",".intercalate a.inlets.names ++ ") -> " ++ ",".intercalate a.outlets.names

end Action

end Dataflow
