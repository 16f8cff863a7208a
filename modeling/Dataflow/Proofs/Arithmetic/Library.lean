import Dataflow.Program
import Dataflow.Proofs.Evaluation.Choice

/-!
# The library of arithmetic, declared

What the declaration of the library leaves behind (`Arithmetic.catalog`): an action for each of
eleven operations, under its code (`Arithmetic.exists_operation`), and the strategies of those that
are plain. The engine that the context names, or the native one if it names none, decides the
choice between these (`Operation.chooseStrategy_of_mem`, `Operation.chooseStrategy_of_not_mem`).
-/

namespace Dataflow.Arithmetic

/-- The catalog that the declaration of the library leaves. -/
def catalog : Catalog := (register ∅).2

theorem library_result : Program.library.result = .ok catalog := rfl

/-- What the library computes. -/
inductive Operation where
  | negation
  | sum
  | product
  | quotient
  | power
  | increment
  | addTwo
  | difference
  | square
  | calculation
  | incrementTwice
deriving DecidableEq

namespace Operation

/-- The code of an operation. -/
def code : Operation → String
  | negation => "Negation"
  | sum => "Sum"
  | product => "Multi"
  | quotient => "Division"
  | power => "Power"
  | increment => "Increment"
  | addTwo => "AddTwo"
  | difference => "Subtraction"
  | square => "Square"
  | calculation => "Calc"
  | incrementTwice => "IncrementTwice"

/-- The inlet of an operation on a number. -/
def one : Ports := ⟨[numeric "a"], by decide⟩

/-- The inlets of an operation on two numbers. -/
def two : Ports := ⟨[numeric "a", numeric "b"], by decide⟩

/-- The inlets of an operation. -/
def inlets : Operation → Ports
  | negation | increment | addTwo | square | incrementTwice => one
  | sum | product | quotient | power | difference | calculation => two

/-- The action of an operation, without a graph. -/
def shell (op : Operation) : Action := ⟨op.code, op.inlets, ⟨result, by decide⟩, none⟩

/-- The graph with these operations as its steps. -/
def graphOf (op : Operation) (steps : List Operation) (binds : List (Destination × Source)) :
    Graph :=
  ⟨steps.mapIdx fun k step => ⟨op.code, k, step.shell⟩, .ofList binds⟩

/-- The graph of an operation that is defined by others. -/
def graph? : Operation → Option Graph
  | difference =>
    some <| difference.graphOf [negation, sum]
      [(.stepInlet ⟨0, 0⟩, .inlet 1), (.stepInlet ⟨1, 0⟩, .inlet 0),
        (.stepInlet ⟨1, 1⟩, .stepOutlet ⟨0, 0⟩), (.outlet 0, .stepOutlet ⟨1, 0⟩)]
  | square =>
    some <| square.graphOf [product]
      [(.stepInlet ⟨0, 0⟩, .inlet 0), (.stepInlet ⟨0, 1⟩, .inlet 0),
        (.outlet 0, .stepOutlet ⟨0, 0⟩)]
  | calculation =>
    some <| calculation.graphOf [sum, product, power, power, sum]
      [(.stepInlet ⟨0, 0⟩, .inlet 0), (.stepInlet ⟨0, 1⟩, .inlet 1),
        (.stepInlet ⟨1, 0⟩, .inlet 0), (.stepInlet ⟨1, 1⟩, .stepOutlet ⟨0, 0⟩),
        (.stepInlet ⟨2, 0⟩, .stepOutlet ⟨0, 0⟩), (.stepInlet ⟨2, 1⟩, .inlet 0),
        (.stepInlet ⟨3, 0⟩, .stepOutlet ⟨1, 0⟩), (.stepInlet ⟨3, 1⟩, .inlet 1),
        (.stepInlet ⟨4, 0⟩, .stepOutlet ⟨2, 0⟩), (.stepInlet ⟨4, 1⟩, .stepOutlet ⟨3, 0⟩),
        (.outlet 0, .stepOutlet ⟨4, 0⟩)]
  | incrementTwice =>
    some <| incrementTwice.graphOf [increment, increment]
      [(.stepInlet ⟨0, 0⟩, .inlet 0), (.stepInlet ⟨1, 0⟩, .stepOutlet ⟨0, 0⟩),
        (.outlet 0, .stepOutlet ⟨1, 0⟩)]
  | _ => none

/-- The action of an operation. -/
def action (op : Operation) : Action := { op.shell with graph := op.graph? }

/-- The host function of an operation that is plain. -/
def callable? : Operation → Option Callable
  | negation => some <| unary fun a => -a
  | sum => some <| binary fun a b => a + b
  | product => some <| binary fun a b => a * b
  | quotient => some Arithmetic.quotient
  | power => some <| binary Float.pow
  | increment => some <| unary fun a => a + 1
  | addTwo => some <| unary fun a => a + 2
  | _ => none

/-- The engines that there are strategies of an operation for. -/
def engines : Operation → List EngineKey
  | increment | addTwo => [native, composed]
  | negation | sum | product | quotient | power => [native]
  | _ => []

end Operation

/-- The operations, in the order of their declarations. -/
def operations : List Operation :=
  [.negation, .sum, .product, .quotient, .power, .increment, .addTwo, .difference, .square,
    .calculation, .incrementTwice]

theorem entries_actions :
    catalog.actions.entries.entries = operations.map fun op => (op.code, op.action) := rfl

theorem catalog_action (op : Operation) : catalog.action op.code = .ok op.action := by
  cases op <;> rfl

/-- The actions of the library are those of the operations. -/
theorem exists_operation {code : String} {a : Action} (h : catalog.action code = .ok a) :
    ∃ op : Operation, op.code = code ∧ op.action = a := by
  have hentry := ActionPool.get_eq_ok_iff.1 h
  rw [entries_actions, List.mem_map] at hentry
  obtain ⟨op, -, hop⟩ := hentry
  exact ⟨op, congrArg Prod.fst hop, congrArg Prod.snd hop⟩

namespace Operation

theorem inlets_eq (op : Operation) : op.inlets = one ∨ op.inlets = two := by
  cases op <;> first | exact .inl rfl | exact .inr rfl

theorem numeric_of_mem_inlets {op : Operation} {p : Parameter} (hp : p ∈ op.inlets.parameters) :
    p.type = .numeric := by
  rcases op.inlets_eq with hinlets | hinlets <;> rw [hinlets] at hp
  · rw [List.mem_singleton.1 hp]
    rfl
  · rcases List.mem_cons.1 hp with rfl | hp
    · rfl
    · rw [List.mem_singleton.1 hp]
      rfl

/-- An operation with a host function is plain. -/
theorem action_eq_shell {op : Operation} {c : Callable} (hc : op.callable? = some c) :
    op.action = op.shell := by
  cases op <;> cases hc <;> rfl

end Operation

/-! ## Strategies -/

/-- The engine that strategies are chosen for: the one that the context names, or the native
    one. -/
def engineOf (ev : Evaluator) : EngineKey := ev.engine?.getD native

theorem engineOf_eq_native_iff {ev : Evaluator} :
    engineOf ev = native ↔ ev.engine? = none ∨ ev.engine? = some native := by
  rw [engineOf]
  cases ev.engine? <;> simp

/-- Any other engine is one that the context names. -/
theorem engineOf_eq_iff {ev : Evaluator} {engine : EngineKey} (h : engine ≠ native) :
    engineOf ev = engine ↔ ev.engine? = some engine := by
  rw [engineOf]
  cases ev.engine? <;> simp [h.symm]

namespace Operation

variable {ev : Evaluator} (hcatalog : ev.catalog = catalog) {op : Operation} {c : Callable}

include hcatalog

theorem keys_strategies (op : Operation) : (ev.strategies op.action).keys = op.engines := by
  rw [Evaluator.strategies, hcatalog]
  cases op <;> rfl

/-- A plain operation is computed by calling its host function, unless adding two is delegated. -/
theorem chooseStrategy_of_mem (hc : op.callable? = some c) (hengine : engineOf ev ∈ op.engines)
    (haddTwo : op = addTwo → engineOf ev ≠ composed) :
    ev.chooseStrategy op.action = .ok ⟨op.shell, engineOf ev, .callable c⟩ := by
  rw [Evaluator.chooseStrategy_eq_ok_iff, Evaluator.chosen?, Evaluator.strategies, hcatalog]
  unfold engineOf at hengine haddTwo ⊢
  generalize ev.engine? = named at hengine haddTwo ⊢
  rcases named with - | engine
  · cases op <;> cases hc <;> rfl
  · rw [Option.getD_some] at hengine haddTwo ⊢
    cases op <;> cases hc <;>
      simp only [engines, List.mem_cons, List.not_mem_nil, or_false] at hengine <;>
      rcases hengine with rfl | rfl <;> first | rfl | exact absurd rfl (haddTwo rfl)

/-- Adding two is delegated by the composed engine. -/
theorem chooseStrategy_addTwo (h : engineOf ev = composed) :
    ev.chooseStrategy addTwo.action =
      .ok ⟨addTwo.shell, composed, .action incrementTwice.action⟩ := by
  rw [Evaluator.chooseStrategy_eq_ok_iff, Evaluator.chosen?, (engineOf_eq_iff (by decide)).1 h,
    Evaluator.strategies, hcatalog]
  rfl

/-- There is no strategy of a plain operation for any other engine. -/
theorem chooseStrategy_of_not_mem (hc : op.callable? = some c) (h : engineOf ev ∉ op.engines) :
    ev.chooseStrategy op.action = .error (.unknownEngine op.code (engineOf ev)) := by
  have hnative : native ∈ op.engines := by cases op <;> cases hc <;> decide
  have hkeys := keys_strategies hcatalog op
  have hne : engineOf ev ≠ native := fun heq => h (by rwa [heq])
  refine Evaluator.chooseStrategy_eq_unknownEngine_iff.2
    ⟨(engineOf_eq_iff hne).1 rfl, fun hnil => ?_, by rwa [hkeys]⟩
  rw [OrderedMap.keys, hnil] at hkeys
  rw [← hkeys] at hnative
  cases hnative

end Operation

end Dataflow.Arithmetic
