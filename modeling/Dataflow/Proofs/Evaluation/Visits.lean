import Dataflow.Proofs.Evaluation.Steps

/-!
# Visits

The evaluations that an evaluation consists of: that of the action itself, on behalf of a
caller, and those nested in it, at any depth, each on behalf of a step or of a strategy that
delegates. Which they are is a matter of what is computed on the way: a step is evaluated
with the arguments that the table gives it, and only if the steps before it succeed
(`Evaluator.Nests`, `Evaluator.Visits`).

A visit on behalf of a step brings the context to every inlet that receives it
(`Evaluator.Visits.ambient`). The host function of a strategy runs with the inputs of its
visit, once these are validated (`Evaluator.CallsBody`), and the visit comes to what the function
returns (`Evaluator.CallsBody.result_evaluateAction`).
-/

namespace Dataflow

/-- On whose behalf an action is evaluated. -/
inductive Role where
  /-- A caller. -/
  | caller
  /-- A step of an algorithm. -/
  | step
  /-- A strategy that delegates. -/
  | delegation

/-- An evaluation of an action: on whose behalf, at which depth and with which inputs. -/
structure Visit where
  /-- On whose behalf it is. -/
  role : Role
  /-- The depth. -/
  depth : Nat
  /-- The action. -/
  action : Action
  /-- The inputs, as they are supplied. -/
  inputs : Record

/-- What a visit comes to if it calls a body with arguments: what the body returns, named after the
    outlets of the action and passed through them. -/
def Visit.outputs (v : Visit) (s : Strategy) (c : Callable) (args : Record) :
    Except Error Record := do
  let returned ← (c.body args).mapError (.executionFailed s.action.code s.engine)
  let outputs ← returned.toOutputs v.action
  v.action.validate .outward outputs

namespace Evaluator

section

variable {read : Nat → Parameter → Except Error Value} {ps : List Parameter} {i : Nat}
  {entries : List (String × Value)}

/-- What is collected has the names of the parameters, in order. -/
theorem map_fst_of_collect (h : collect read i ps = .ok entries) :
    entries.map Prod.fst = ps.map Parameter.name := by
  induction ps generalizing i entries with
  | nil =>
    rw [collect, Except.pure_eq_ok] at h
    exact h ▸ rfl
  | cons p rest ih =>
    simp only [collect, Except.bind_eq_ok, Except.pure_eq_ok] at h
    obtain ⟨v, -, later, hlater, rfl⟩ := h
    rw [List.map_cons, List.map_cons, ih hlater]

/-- What is collected for a parameter was read for it. -/
theorem exists_of_collect (h : collect read i ps = .ok entries) {p : Parameter} (hp : p ∈ ps) :
    ∃ j v, read j p = .ok v ∧ (p.name, v) ∈ entries := by
  induction ps generalizing i entries with
  | nil => cases hp
  | cons q rest ih =>
    simp only [collect, Except.bind_eq_ok, Except.pure_eq_ok] at h
    obtain ⟨v, hv, later, hlater, rfl⟩ := h
    rcases List.mem_cons.1 hp with rfl | hp
    · exact ⟨i, v, hv, List.mem_cons_self⟩
    · obtain ⟨j, w, hw, hmem⟩ := ih hlater hp
      exact ⟨j, w, hw, List.mem_cons_of_mem _ hmem⟩

theorem get?_of_collect (h : collect read i ps = .ok entries)
    (hnodup : (ps.map Parameter.name).Nodup) {p : Parameter} (hp : p ∈ ps) :
    ∃ j v, read j p = .ok v ∧ (OrderedMap.ofList entries).get? p.name = some v := by
  obtain ⟨j, v, hv, hmem⟩ := exists_of_collect h hp
  refine ⟨j, v, hv, OrderedMap.get?_eq_some_iff.2 ?_⟩
  rwa [OrderedMap.entries_ofList (map_fst_of_collect h ▸ hnodup)]

end

variable (ev : Evaluator)

/-- What the computation of an action on validated inputs evaluates in its turn, and with what
    inputs. -/
inductive Nests (nested : Nested) (d : Nat) (a : Action) (inputs : Record) :
    Role → Action → Record → Prop
  /-- A step, with its arguments, once the steps before it are done. -/
  | step {g : Graph} {k : Nat} {s : Step} {start table : ValueTable}
    {entries : List (String × Value)} (hg : a.graph = some g) (hs : g.steps[k]? = some s)
    (hstart : ValueTable.enter a .inward .inlet [] inputs.entries = .ok start)
    (htable : (ev.evaluateSteps nested d a g (g.steps.take k) start).result = .ok table)
    (hargs : ev.arguments a g table s = .ok entries) :
    Nests nested d a inputs .step s.action (.ofList entries)
  /-- What the strategy of a plain action delegates to, with the same inputs. -/
  | delegation {s : Strategy} {target : Action} (hplain : a.graph = none)
    (hs : ev.chooseStrategy a = .ok s) (htarget : s.target = .action target) :
    Nests nested d a inputs .delegation target inputs

/-- The visits of an evaluation with so many levels: itself, and those of what is nested in it. -/
inductive Visits : Nat → Visit → Visit → Prop
  /-- The evaluation itself. -/
  | self {n : Nat} {v : Visit} : Visits (n + 1) v v
  /-- A visit of what is nested in it, one level deeper. -/
  | nested {n : Nat} {v w : Visit} {role : Role} {b : Action} {validated args : Record}
    (hinputs : v.action.validate .inward (ev.inject v.action v.inputs) = .ok validated)
    (hnests : ev.Nests (ev.evaluateAction n (v.depth + 1)) v.depth v.action validated role b args)
    (h : Visits n ⟨role, v.depth + 1, b, args⟩ w) : Visits (n + 1) v w

/-- A visit calls the body of a host function, that of the strategy of its action, with
    arguments: its validated inputs, which the signature accepts. -/
structure CallsBody (v : Visit) (s : Strategy) (c : Callable) (args : Record) : Prop where
  /-- The action has no graph. -/
  plain : v.action.graph = none
  /-- The inputs are valid. -/
  validated : v.action.validate .inward (ev.inject v.action v.inputs) = .ok args
  /-- The strategy is that of the action. -/
  chosen : ev.chooseStrategy v.action = .ok s
  /-- The strategy runs the host function. -/
  target : s.target = .callable c
  /-- The signature has the names of the arguments. -/
  accepts : c.accepts args = true

/-- A visit on behalf of a step brings the context to every inlet that receives it. -/
def Ambient (v : Visit) : Prop :=
  v.role = .step → ∀ p ∈ v.action.inlets.parameters, p.type.isContext = true →
    v.inputs.get? p.name = some (.context ev.context)

variable {ev} {nested : Nested} {n d : Nat} {a b : Action} {inputs args : Record} {role : Role}
  {v w : Visit} {s : Strategy} {c : Callable}

/-- The body is called with the arguments. -/
theorem CallsBody.call_eq (h : ev.CallsBody v s c args) :
    s.call args = (c.body args).mapError (.executionFailed s.action.code s.engine) := by
  rw [Strategy.call, h.target]
  dsimp only
  rw [if_pos h.accepts]
  cases c.body args <;> rfl

/-- A visit that calls a body comes to what that returns. -/
theorem CallsBody.result_evaluateAction (h : ev.CallsBody v s c args) (n : Nat) :
    (ev.evaluateAction (n + 1) v.depth v.action v.inputs).result =
      (v.outputs s c args).mapError .failed := by
  rw [evaluateAction, h.validated, Run.result_bind]
  show ((ev.compute _ v.depth v.action args) >>= _).result = _
  rw [Run.result_bind, result_compute_of_call h.plain h.chosen h.target, h.call_eq, Visit.outputs,
    ← bind_assoc]
  -- What is left is to pass through the outlets, inside the change of errors or after it.
  exact (Except.mapError_bind Halt.failed _ (v.action.validate .outward)).symm

/-- With one level there is nothing nested in a visit. -/
theorem Visits.eq_of_one (h : ev.Visits 1 v w) : w = v := by
  cases h with
  | self => rfl
  | nested _ _ h => cases h

theorem Nests.ambient (h : ev.Nests nested d a inputs role b args) :
    ev.Ambient ⟨role, d + 1, b, args⟩ := by
  cases h with
  | delegation => exact fun hrole => nomatch hrole
  | step _ _ _ _ hargs =>
    intro _ p hp hc
    obtain ⟨j, v, hv, hget⟩ := get?_of_collect hargs (Ports.nodup _) hp
    -- An inlet that receives the context reads nothing else.
    rw [argument, if_pos hc] at hv
    exact Except.ok.inj hv ▸ hget

/-- All visits on behalf of steps bring the context if the first one does. -/
theorem Visits.ambient (h : ev.Visits n v w) (hv : ev.Ambient v) : ev.Ambient w := by
  induction h with
  | self => exact hv
  | nested _ hnests _ ih => exact ih hnests.ambient

end Evaluator

end Dataflow
