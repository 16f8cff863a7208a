import Dataflow.Evaluation
import Dataflow.Proofs.Catalog.Pool

/-!
# The choice of a strategy

A plain action is computed by one of its strategies: the one for the engine that the context
names, whatever others there are, or the first one if no engine is named. Here the choice is
described in terms of the strategies of the action (`Evaluator.chooseStrategy_eq_ok_iff`), with
the two ways in which there is none: the action has no strategy at all
(`Evaluator.chooseStrategy_eq_noImplementation_iff`), or none for the engine
(`Evaluator.chooseStrategy_eq_unknownEngine_iff`). What is chosen is logged, then run
(`Evaluator.dispatch_eq`).
-/

namespace Dataflow

/-- The errors of a choice. -/
def Error.OfChoice : Error → Prop
  | noImplementation _ | unknownEngine .. => True
  | _ => False

namespace Evaluator

@[simp] theorem result_expect {α : Type} (x : Except Error α) :
    (expect x).result = x.mapError .failed := rfl

theorem expect_eq_ok {α : Type} {x : Except Error α} {b : α} :
    (expect x).result = .ok b ↔ x = .ok b := by
  rw [result_expect, Except.mapError_eq_ok]

theorem expect_eq_error {α : Type} {x : Except Error α} {halt : Halt} :
    (expect x).result = .error halt ↔ ∃ e, x = .error e ∧ halt = .failed e := by
  rw [result_expect]
  cases x <;> simp [eq_comm]

variable (ev : Evaluator) (a : Action)

/-- The strategies that the choice for an action is made from. -/
def strategies : OrderedMap EngineKey Strategy := ev.catalog.implementations.strategies a.code

/-- The engine that the context names. -/
def engine? : Option EngineKey := ev.context.engineUnder? ev.config.engineKey

/-- The strategy that the strategies of an action and the context settle on. -/
def chosen? : Option Strategy :=
  match ev.engine? with
  | some engine => (ev.strategies a).get? engine
  | none => (ev.strategies a).first?

/-- What is missing where no strategy is chosen. -/
def choiceError : Error :=
  match ev.engine? with
  | some engine =>
    if (ev.strategies a).isEmpty then .noImplementation a.code else .unknownEngine a.code engine
  | none => .noImplementation a.code

theorem chooseStrategy_eq :
    ev.chooseStrategy a =
      match ev.chosen? a with
      | some s => .ok s
      | none => .error (ev.choiceError a) := by
  have hlist : ev.catalog.implementations.list a.code =
      if (ev.strategies a).isEmpty then .error (.notExists .implementation a.code)
      else .ok (ev.strategies a) := StrategyPool.list_eq _ _
  rw [chooseStrategy, hlist, chosen?, choiceError, engine?]
  by_cases hempty : (ev.strategies a).isEmpty = true
  · have hentries := OrderedMap.isEmpty_iff.1 hempty
    rw [if_pos hempty]
    cases ev.context.engineUnder? ev.config.engineKey with
    | some engine => simp [OrderedMap.get?, hentries, hempty]
    | none => simp [OrderedMap.first?, hentries]
  · rw [if_neg hempty]
    cases ev.context.engineUnder? ev.config.engineKey with
    | some engine => cases hget : (ev.strategies a).get? engine <;> simp [hget, hempty]
    | none => cases hfirst : (ev.strategies a).first? <;> simp [hfirst]

variable {ev a} {s : Strategy} {e : Error}

theorem chooseStrategy_eq_ok_iff : ev.chooseStrategy a = .ok s ↔ ev.chosen? a = some s := by
  rw [chooseStrategy_eq]
  cases ev.chosen? a <;> simp

theorem chooseStrategy_eq_error_iff :
    ev.chooseStrategy a = .error e ↔ ev.chosen? a = none ∧ e = ev.choiceError a := by
  rw [chooseStrategy_eq]
  cases ev.chosen? a <;> simp [eq_comm]

/-- The strategy that is chosen is one of the action. -/
theorem mem_strategies_of_chosen? (h : ev.chosen? a = some s) : s ∈ (ev.strategies a).values := by
  rw [chosen?] at h
  split at h
  · exact List.mem_map_of_mem (OrderedMap.get?_eq_some_iff.1 h)
  · obtain ⟨entry, hentry, rfl⟩ := Option.map_eq_some_iff.1 h
    exact List.mem_map_of_mem (List.mem_of_mem_head? hentry)

/-- There is no strategy for an action just when it has none. -/
theorem chooseStrategy_eq_noImplementation_iff :
    ev.chooseStrategy a = .error (.noImplementation a.code) ↔ (ev.strategies a).entries = [] := by
  rw [chooseStrategy_eq_error_iff, chosen?, choiceError, ← OrderedMap.isEmpty_iff]
  cases ev.engine? with
  | some engine =>
    by_cases hempty : (ev.strategies a).isEmpty = true
    · simp [hempty, OrderedMap.get?, OrderedMap.isEmpty_iff.1 hempty]
    · simp [hempty]
  | none => simp [OrderedMap.first?_eq_none_iff, OrderedMap.isEmpty_iff]

/-- There is no strategy for an engine just when the context names it and the action has some,
    but none for it. -/
theorem chooseStrategy_eq_unknownEngine_iff {engine : EngineKey} :
    ev.chooseStrategy a = .error (.unknownEngine a.code engine) ↔
      ev.engine? = some engine ∧ (ev.strategies a).entries ≠ [] ∧
        engine ∉ (ev.strategies a).keys := by
  rw [chooseStrategy_eq_error_iff, chosen?, choiceError]
  cases ev.engine? with
  | some named =>
    by_cases hempty : (ev.strategies a).isEmpty = true
    · simp [hempty, OrderedMap.isEmpty_iff.1 hempty]
    · have hentries : (ev.strategies a).entries ≠ [] := fun h => hempty (OrderedMap.isEmpty_iff.2 h)
      simp only [hempty, OrderedMap.get?_eq_none_iff, Option.some.injEq, ne_eq, hentries,
        not_false_eq_true, true_and, Error.unknownEngine.injEq, Bool.false_eq_true, if_false]
      constructor
      · rintro ⟨hnone, rfl⟩
        exact ⟨rfl, hnone⟩
      · rintro ⟨rfl, hnone⟩
        exact ⟨hnone, rfl⟩
  | none => simp

/-- A choice fails for want of any strategy or of one for an engine. -/
theorem chooseStrategy_error_cases (h : ev.chooseStrategy a = .error e) :
    e = .noImplementation a.code ∨ ∃ engine, e = .unknownEngine a.code engine := by
  rw [(chooseStrategy_eq_error_iff.1 h).2, choiceError]
  split
  · split
    · exact .inl rfl
    · exact .inr ⟨_, rfl⟩
  · exact .inl rfl

theorem ofChoice_of_chooseStrategy (h : ev.chooseStrategy a = .error e) : e.OfChoice := by
  rcases chooseStrategy_error_cases h with rfl | ⟨engine, rfl⟩ <;> trivial

/-! ## Computing an action by a strategy -/

/-- Chooses the strategy of a plain action and logs the choice. -/
def select (ev : Evaluator) (depth : Nat) (a : Action) : Run Halt Strategy := do
  let s ← expect (ev.chooseStrategy a)
  .log (.strategySelected a.code s.engine depth)
  return s

/-- Computes a plain action by a strategy. -/
def runStrategy (nested : Nested) (a : Action) (inputs : Record) (s : Strategy) :
    Run Halt Record :=
  match s.target with
  | .action target => nested target inputs
  | .callable _ => do
    let returned ← expect (s.call inputs)
    expect (returned.toOutputs a)

/-- A plain action is computed by the strategy that is selected. -/
theorem dispatch_eq (ev : Evaluator) (nested : Nested) (depth : Nat) (a : Action)
    (inputs : Record) :
    ev.dispatch nested depth a inputs = ev.select depth a >>= runStrategy nested a inputs := by
  rw [dispatch, select]
  simp only [bind_assoc, pure_bind]
  rfl

theorem compute_of_plain (ev : Evaluator) {nested : Nested} {depth : Nat} {a : Action}
    {inputs : Record} (hplain : a.graph = none) :
    ev.compute nested depth a inputs = ev.select depth a >>= runStrategy nested a inputs := by
  rw [compute, hplain]
  exact ev.dispatch_eq nested depth a inputs

theorem result_select (ev : Evaluator) (depth : Nat) (a : Action) :
    (ev.select depth a).result = (ev.chooseStrategy a).mapError .failed := by
  rw [select]
  simp only [Run.result_bind, Run.result_log, Run.result_pure, result_expect]
  cases ev.chooseStrategy a <;> rfl

/-- A plain action whose strategy is a host function is computed by calling it and naming what it
    returns. -/
theorem result_compute_of_call {ev : Evaluator} {nested : Nested} {depth : Nat} {a : Action}
    {inputs : Record} {s : Strategy} {c : Callable} (hplain : a.graph = none)
    (hs : ev.chooseStrategy a = .ok s) (hc : s.target = .callable c) :
    (ev.compute nested depth a inputs).result =
      (s.call inputs >>= fun returned => returned.toOutputs a).mapError .failed := by
  rw [ev.compute_of_plain hplain, Run.result_bind, result_select, hs]
  show (runStrategy nested a inputs s).result = _
  rw [runStrategy, hc]
  dsimp only
  rw [Run.result_bind, Except.mapError_bind]
  rfl

/-- What is logged of a choice is the engine of the strategy that is chosen. -/
theorem eq_of_mem_events_select (ev : Evaluator) {depth : Nat} {a : Action} {event : Event}
    (h : event ∈ (ev.select depth a).events) :
    ∃ s, ev.chooseStrategy a = .ok s ∧ event = .strategySelected a.code s.engine depth := by
  rw [select] at h
  rcases Run.mem_events_bind.1 h with h | ⟨s, hs, h⟩
  · cases h
  · rcases Run.mem_events_bind.1 h with h | ⟨_, -, h⟩
    · exact ⟨s, expect_eq_ok.1 hs, List.mem_singleton.1 h⟩
    · cases h

end Evaluator

end Dataflow
