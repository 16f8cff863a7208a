import Dataflow.Action

/-!
# Graphs in words

The check that every inlet of every step is bound, and the texts that describe the
ports of a graph and the whole of it. Inlets that receive the context need no bind.
Names of the algorithm's own ports are those of an action that is given.
-/

namespace Dataflow

/-- The text of a step. -/
def Step.text (s : Step) : String := s!"{s.ordinal} step of {s.algorithm}: {s.action.code}"

namespace Graph

/-- The source bound to a destination. -/
def sourceOf? (g : Graph) (d : Destination) : Option Source := g.binds.get? d

/-- The first parameter, of an index from `i` on, that needs a source and has none. -/
def firstUnbound? (g : Graph) (step : Nat) (i : Nat) : List Parameter → Option Parameter
  | [] => none
  | p :: rest =>
    if p.type.isContext ∨ g.binds.contains (.stepInlet ⟨step, i⟩) then
      g.firstUnbound? step (i + 1) rest
    else some p

/-- Checks that every inlet of the steps that does not receive the context has a
    source. -/
def checkSteps (g : Graph) (algorithm : String) : List Step → Except Error Unit
  | [] => .ok ()
  | s :: rest =>
    match g.firstUnbound? s.ordinal 0 s.action.inlets.parameters with
    | some p => .error (.unboundInlet algorithm s.ordinal s.action.code p.name)
    | none => g.checkSteps algorithm rest

/-- Checks that every inlet of a step that does not receive the context has a
    source. -/
def validate (g : Graph) (algorithm : String) : Except Error Unit :=
  g.checkSteps algorithm g.steps

/-! ## Descriptions -/

/-- The description of a port of the algorithm. -/
def describePort (algorithm : Action) (direction : Direction) (i : Nat) : String :=
  match algorithm.portAt? direction i with
  | some port => port.text
  | none => s!"{direction.text}let #{i} of `{algorithm.code}`"

/-- The description of a port of a step. -/
def describeStepPort (g : Graph) (direction : Direction) (port : StepPort) : String :=
  match g.steps[port.step]? with
  | none => s!"port #{port.port} of step #{port.step}"
  | some s =>
    match s.action.portAt? direction port.port with
    | some found =>
      s!"{direction.text}let `{found.parameter.name}` of step {s.ordinal} (`{s.action.code}`)"
    | none => s!"{direction.text}let #{port.port} of step {s.ordinal}"

/-- The description of a source. -/
def describeSource (g : Graph) (algorithm : Action) : Source → String
  | .inlet i => describePort algorithm .inward i
  | .stepOutlet port => g.describeStepPort .outward port
  | .const v => s!"const {v.text}"

/-- The description of a destination. -/
def describeDestination (g : Graph) (algorithm : Action) : Destination → String
  | .stepInlet port => g.describeStepPort .inward port
  | .outlet i => describePort algorithm .outward i

/-- The text of a graph: the algorithm, its steps and its binds, a line each. -/
def text (g : Graph) (algorithm : Action) : String :=
  let steps := g.steps.map fun s => s!"  {s.text}\n"
  let binds := g.binds.entries.map fun (d, s) =>
    s!"  {g.describeSource algorithm s} ---> {g.describeDestination algorithm d}\n"
  s!"{algorithm.text}\n" ++ String.join steps ++ String.join binds

end Graph

end Dataflow
