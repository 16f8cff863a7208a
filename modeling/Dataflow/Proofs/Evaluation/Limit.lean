import Dataflow.Proofs.Evaluation.Simulation

/-!
# The limit of an evaluation

An evaluation that is not cut off is the same for every greater limit
(`Evaluator.evaluateAction_of_le`), so whether an evaluation returns, and with what, is a
matter of the action, the inputs and the evaluator alone (`Evaluator.Returns`). The depth
at which an action is evaluated shows in the events, never in the result
(`Evaluator.evaluateAction_result`): an action nested in another one returns what it
returns on its own.
-/

namespace Dataflow

/-- The second run is the first, unless the first is cut off. -/
def Run.Approximates {α : Type} (x y : Run Halt α) : Prop :=
  x.result ≠ .error .tooDeep → y = x

theorem Run.approximates_iff {α : Type} {x y : Run Halt α} :
    x.Approximates y ↔ x.AgreesUnless (· = .tooDeep) y := by
  refine imp_congr_left ⟨fun h e he hcut => h (hcut ▸ he), fun h hcut => h _ hcut rfl⟩

/-- Chaining respects approximation: a chain is cut off where one of its parts is. -/
theorem Run.isCongruence_approximates :
    IsCongruence fun (α : Type) (x y : Run Halt α) => x.Approximates y := by
  simpa only [approximates_iff] using isCongruence_agreesUnless (· = Halt.tooDeep)

namespace Halt

theorem mapError_failed_ne_tooDeep {α : Type} (r : Except Error α) :
    r.mapError failed ≠ .error tooDeep := by
  cases r <;> simp

theorem mapError_failed_inj {α : Type} {r r' : Except Error α} :
    r.mapError failed = r'.mapError failed ↔ r = r' := by
  cases r <;> cases r' <;> simp

end Halt

namespace Evaluator

variable (ev : Evaluator) {a : Action} {inputs : Record} {r r' : Except Error Record}

theorem alike_approximates (d : Nat) :
    Alike (fun _ x y => x.Approximates y) ev ev d d where
  congruence := Run.isCongruence_approximates
  context := rfl
  selection _ _ := rfl
  executing _ _ _ _ := rfl
  inputs _ _ _ := rfl
  outputs _ _ _ := rfl

theorem alike_result (d d' : Nat) : Alike (fun _ x y => x.result = y.result) ev ev d d' where
  congruence := Run.isCongruence_result
  context := rfl
  selection a := by rw [result_select, result_select]
  executing _ _ _ := rfl
  inputs _ _ := rfl
  outputs _ _ := rfl

theorem evaluateAction_approximates {n m : Nat} (hnm : n ≤ m) (d : Nat) :
    RelatedNested (fun _ x y => x.Approximates y) (ev.evaluateAction n d)
      (ev.evaluateAction m d) := by
  induction n generalizing m d with
  | zero => exact fun a inputs h => absurd rfl h
  | succ n ih =>
    -- The second evaluation has a level to spare, and so have those nested in it.
    obtain ⟨m, rfl⟩ := Nat.exists_eq_add_of_lt hnm
    exact (ev.alike_approximates d).evaluateAction_succ (ih (by omega) (d + 1))

/-- More levels change nothing in an evaluation that is not cut off. -/
theorem evaluateAction_of_le {n m d : Nat} (hnm : n ≤ m)
    (h : (ev.evaluateAction n d a inputs).result ≠ .error .tooDeep) :
    ev.evaluateAction m d a inputs = ev.evaluateAction n d a inputs :=
  ev.evaluateAction_approximates hnm d a inputs h

/-- The result of an evaluation does not depend on the depth. -/
theorem evaluateAction_result (n d d' : Nat) :
    RelatedNested (fun _ x y => x.result = y.result) (ev.evaluateAction n d)
      (ev.evaluateAction n d') := by
  induction n generalizing d d' with
  | zero => exact fun _ _ => rfl
  | succ n ih => exact (ev.alike_result d d').evaluateAction_succ (ih (d + 1) (d' + 1))

theorem evaluate_result (limit : Nat) (a : Action) (inputs : Record) :
    (ev.evaluate limit a inputs).result = (ev.evaluateAction limit 0 a inputs).result := by
  rw [evaluate]
  simp only [Run.result_bind, Run.result_log]
  cases (ev.evaluateAction limit 0 a inputs).result <;> rfl

/-- The evaluation of an action returns, with this result, if it may nest deeply
    enough. -/
def Returns (a : Action) (inputs : Record) (r : Except Error Record) : Prop :=
  ∃ limit, (ev.evaluate limit a inputs).result = r.mapError .failed

variable {ev}

/-- An evaluation that returns does so at every depth and for every greater limit. -/
theorem Returns.eventually (h : ev.Returns a inputs r) :
    ∃ n, ∀ m, n ≤ m → ∀ d, (ev.evaluateAction m d a inputs).result = r.mapError .failed := by
  obtain ⟨n, hn⟩ := h
  rw [evaluate_result] at hn
  refine ⟨n, fun m hm d => ?_⟩
  have hr : (ev.evaluateAction n d a inputs).result = r.mapError .failed :=
    (ev.evaluateAction_result n d 0 a inputs).trans hn
  rw [ev.evaluateAction_of_le hm (hr ▸ Halt.mapError_failed_ne_tooDeep r), hr]

theorem returns_of_evaluateAction {n d : Nat}
    (h : (ev.evaluateAction n d a inputs).result = r.mapError .failed) : ev.Returns a inputs r :=
  ⟨n, by rw [evaluate_result, ← h]; exact ev.evaluateAction_result n 0 d a inputs⟩

/-- An evaluation returns at most one result. -/
theorem Returns.unique (h : ev.Returns a inputs r) (h' : ev.Returns a inputs r') : r = r' := by
  obtain ⟨n, hn⟩ := h.eventually
  obtain ⟨n', hn'⟩ := h'.eventually
  have hm := hn (max n n') (Nat.le_max_left n n') 0
  rw [hn' (max n n') (Nat.le_max_right n n') 0] at hm
  exact (Halt.mapError_failed_inj.1 hm).symm

end Evaluator

end Dataflow
