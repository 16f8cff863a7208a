import Dataflow.Graph

/-!
# Build scopes

A scope is the construction site of one algorithm: the steps placed so far and the
binds between their ports. What it hands out are *terminals*, handles of single ports,
and *step handles*. Each carries the identity of its scope, and a scope refuses every
handle of another one, whatever it denotes.

* `Scope.resolveSource` and `Scope.resolveDestination` say which handles can feed a
  port and which can be fed.
* `Scope.finish` binds the results to the outlets and gives the graph.
-/

namespace Dataflow

/-- What a terminal denotes inside its scope. -/
inductive TerminalPort where
  /-- An inlet of the algorithm, by index. -/
  | inlet (i : Nat)
  /-- An inlet of a step. -/
  | stepInlet (port : StepPort)
  /-- An outlet of a step. -/
  | stepOutlet (port : StepPort)
deriving DecidableEq

/-- A handle of a port. -/
structure Terminal where
  /-- The scope that issued it. -/
  scope : Identity
  /-- The port. -/
  port : TerminalPort
deriving DecidableEq

/-- A handle of a step. -/
structure StepHandle where
  /-- The scope that issued it. -/
  scope : Identity
  /-- The place among the steps. -/
  ordinal : Nat
  /-- The action placed there. -/
  action : Action

namespace StepHandle

/-- The index of a port of the step. -/
def portIndex (h : StepHandle) (direction : Direction) (key : PortKey) : Except Error Nat :=
  match h.action.port direction key with
  | .ok port => .ok port.index
  | .error _ =>
    .error (.unknownPort s!"step {h.ordinal} (`{h.action.code}`)" direction key)

/-- An inlet of the step. -/
def inlet (h : StepHandle) (key : PortKey) : Except Error Terminal := do
  return ⟨h.scope, .stepInlet ⟨h.ordinal, ← h.portIndex .inward key⟩⟩

/-- An outlet of the step. -/
def outlet (h : StepHandle) (key : PortKey) : Except Error Terminal := do
  return ⟨h.scope, .stepOutlet ⟨h.ordinal, ← h.portIndex .outward key⟩⟩

end StepHandle

/-- What can feed a port. -/
inductive Output where
  /-- A port. -/
  | port (t : Terminal)
  /-- A step, for its only outlet. -/
  | step (h : StepHandle)
  /-- A literal value. -/
  | const (v : Value)

/-- What a builder produced for the outlets of the algorithm. -/
inductive Produced where
  /-- Nothing. -/
  | nothing
  /-- One result. -/
  | single (output : Output)
  /-- Results in the order of the outlets. -/
  | sequence (outputs : List Output)

/-- The results, in the order of the outlets. -/
def Produced.outputs : Produced → List Output
  | nothing => []
  | single output => [output]
  | sequence outputs => outputs

/-- The construction site of an algorithm. -/
structure Scope where
  /-- The identity. -/
  identity : Identity
  /-- The algorithm, still without a graph. -/
  algorithm : Action
  /-- The steps placed so far. -/
  steps : List Step
  /-- The binds made so far. -/
  binds : OrderedMap Destination Source

namespace Scope

/-- A scope without steps and binds. -/
def start (identity : Identity) (algorithm : Action) : Scope := ⟨identity, algorithm, [], ∅⟩

/-- An inlet of the algorithm. -/
def inlet (s : Scope) (key : PortKey) : Except Error Terminal := do
  return ⟨s.identity, .inlet (← s.algorithm.port .inward key).index⟩

/-- All inlets of the algorithm, in order. -/
def inlets (s : Scope) : List Terminal :=
  (List.range s.algorithm.inlets.size).map fun i => ⟨s.identity, .inlet i⟩

/-- Places an action as the next step. -/
def register (s : Scope) (a : Action) : StepHandle × Scope :=
  let step : Step := ⟨s.algorithm.code, s.steps.length, a⟩
  (⟨s.identity, step.ordinal, a⟩, { s with steps := s.steps ++ [step] })

/-- The error of a bind that gives a port a role it cannot play. -/
def invalidBinding (s : Scope) (reason : String) : Error :=
  .invalidBinding s.algorithm.code reason

/-- Checks that a handle was issued by this scope. -/
def checkIssued (s : Scope) (scope : Identity) : Except Error Unit :=
  if scope = s.identity then .ok ()
  else .error (s.invalidBinding "port belongs to another algorithm")

/-- The source that a terminal is. -/
def sourceOfTerminal (s : Scope) (t : Terminal) : Except Error Source := do
  s.checkIssued t.scope
  match t.port with
  | .inlet i => return .inlet i
  | .stepOutlet port => return .stepOutlet port
  | .stepInlet _ => throw (s.invalidBinding "a step inlet cannot be a source")

/-- The source that an output is; a step stands for its only outlet. -/
def resolveSource (s : Scope) : Output → Except Error Source
  | .const v => return .const v
  | .port t => s.sourceOfTerminal t
  | .step h => do
    s.checkIssued h.scope
    let outlets := h.action.outlets.size
    if 1 < outlets then throw (.ambiguousStep h.ordinal h.action.code outlets)
    s.sourceOfTerminal (← h.outlet (.index 0))

/-- The destination that a terminal is. -/
def resolveDestination (s : Scope) (t : Terminal) : Except Error Destination := do
  s.checkIssued t.scope
  match t.port with
  | .stepInlet port => return .stepInlet port
  | .inlet _ => throw (s.invalidBinding "an algorithm inlet cannot be a destination")
  | .stepOutlet _ => throw (s.invalidBinding "a step outlet cannot be a destination")

/-- Binds a source to a destination, in place of an earlier bind of it. -/
def bind (s : Scope) (source : Output) (destination : Terminal) : Except Error Scope := do
  let source ← s.resolveSource source
  let destination ← s.resolveDestination destination
  return { s with binds := s.binds.insert destination source }

/-- The binds with sources for the outlets from an index on. -/
def bindOutlets (binds : OrderedMap Destination Source) (i : Nat) :
    List Source → OrderedMap Destination Source
  | [] => binds
  | source :: rest => bindOutlets (binds.insert (.outlet i) source) (i + 1) rest

/-- Binds the results of a builder to the outlets and gives the graph. -/
def finish (s : Scope) (produced : Produced) : Except Error Graph := do
  let outputs := produced.outputs
  let outlets := s.algorithm.outlets.size
  if outputs.length ≠ outlets then
    throw (.outletCountMismatch s.algorithm.code outlets outputs.length)
  let sources ← outputs.mapM s.resolveSource
  return ⟨s.steps, bindOutlets s.binds 0 sources⟩

end Scope

end Dataflow
