import Dataflow.Proofs.Evaluation.Choice

/-!
# Related evaluations

Two evaluators that share a context, compared at two depths. Every stage of an
evaluation chains a few choices, events and nested evaluations, so two evaluations are
related by a congruence as soon as these are (`Evaluator.Alike`).

* `Evaluator.Alike.compute`: an action is computed by related runs if the evaluations
  nested in it are related.
* `Evaluator.Alike.evaluateAction_succ`: so does the evaluation with one level more.
-/

namespace Dataflow

namespace Evaluator

variable {R : (α : Type) → Run Halt α → Run Halt α → Prop} {ev ev' : Evaluator} {d d' : Nat}

/-- What two evaluators need at the depths `d` and `d'` for their runs to be related by
    `R`, apart from the evaluations nested in them. -/
structure Alike (R : (α : Type) → Run Halt α → Run Halt α → Prop) (ev ev' : Evaluator)
    (d d' : Nat) : Prop where
  congruence : Run.IsCongruence R
  context : ev.context = ev'.context
  selection : ∀ a, R _ (ev.select d a) (ev'.select d' a)
  executing : ∀ code step action,
    R _ (.log (.executingStep code step action d)) (.log (.executingStep code step action d'))
  inputs : ∀ step j, R _ (ev.logValues (.stepInputs step j)) (ev'.logValues (.stepInputs step j))
  outputs : ∀ step j,
    R _ (ev.logValues (.stepOutputs step j)) (ev'.logValues (.stepOutputs step j))

/-- Two ways to evaluate nested actions that `R` relates. -/
def RelatedNested (R : (α : Type) → Run Halt α → Run Halt α → Prop) (nested nested' : Nested) :
    Prop :=
  ∀ a inputs, R _ (nested a inputs) (nested' a inputs)

namespace Alike

variable {nested nested' : Nested} (h : Alike R ev ev' d d') (hn : RelatedNested R nested nested')

include h

theorem inject (a : Action) (inputs : Record) : ev.inject a inputs = ev'.inject a inputs := by
  simp only [Evaluator.inject, h.context]

theorem argument (A : Action) (g : Graph) (table : ValueTable) (s : Step) (i : Nat)
    (p : Parameter) : ev.argument A g table s i p = ev'.argument A g table s i p := by
  simp only [Evaluator.argument, h.context]

theorem arguments (A : Action) (g : Graph) (table : ValueTable) (s : Step) :
    ev.arguments A g table s = ev'.arguments A g table s := by
  have hread : ev.argument A g table s = ev'.argument A g table s := by
    funext i p
    exact h.argument A g table s i p
  rw [Evaluator.arguments, Evaluator.arguments, hread]

include hn

theorem dispatch (a : Action) (inputs : Record) :
    R _ (ev.dispatch nested d a inputs) (ev'.dispatch nested' d' a inputs) := by
  rw [dispatch_eq, dispatch_eq]
  refine h.congruence.bind (h.selection a) fun s => ?_
  rw [runStrategy, runStrategy]
  cases s.target with
  | action target => exact hn target inputs
  | callable _ =>
    exact h.congruence.bind (h.congruence.refl rfl) fun _ => h.congruence.refl rfl

theorem evaluateStep (A : Action) (g : Graph) (table : ValueTable) (s : Step) :
    R _ (ev.evaluateStep nested d A g table s) (ev'.evaluateStep nested' d' A g table s) := by
  -- What a step takes is the same for both, as they share the context and the table.
  rw [Evaluator.evaluateStep, Evaluator.evaluateStep, h.arguments]
  refine h.congruence.bind (h.congruence.refl rfl) fun entries => ?_
  refine h.congruence.bind (h.executing _ _ _) fun _ => ?_
  refine h.congruence.bind (h.inputs _ _) fun _ => ?_
  refine h.congruence.bind (hn _ _) fun outputs => ?_
  exact h.congruence.bind (h.outputs _ _) fun _ => h.congruence.refl rfl

theorem evaluateSteps (A : Action) (g : Graph) (l : List Step) (table : ValueTable) :
    R _ (ev.evaluateSteps nested d A g l table) (ev'.evaluateSteps nested' d' A g l table) := by
  induction l generalizing table with
  | nil => exact h.congruence.refl rfl
  | cons s rest ih =>
    refine h.congruence.bind (h.evaluateStep hn A g table s) fun outputs => ?_
    exact h.congruence.bind (h.congruence.refl rfl) fun table => ih table

theorem evaluateGraph (A : Action) (g : Graph) (inputs : Record) :
    R _ (ev.evaluateGraph nested d A g inputs) (ev'.evaluateGraph nested' d' A g inputs) := by
  refine h.congruence.bind (h.congruence.refl rfl) fun table => ?_
  refine h.congruence.bind (h.evaluateSteps hn A g g.steps table) fun table => ?_
  exact h.congruence.bind (h.congruence.refl rfl) fun _ => h.congruence.refl rfl

theorem compute (a : Action) (inputs : Record) :
    R _ (ev.compute nested d a inputs) (ev'.compute nested' d' a inputs) := by
  rw [Evaluator.compute, Evaluator.compute]
  cases a.graph with
  | some g => exact h.evaluateGraph hn a g inputs
  | none => exact h.dispatch hn a inputs

omit hn in
/-- One level more: what is nested is evaluated one level deeper. -/
theorem evaluateAction_succ {n n' : Nat}
    (hn : RelatedNested R (ev.evaluateAction n (d + 1)) (ev'.evaluateAction n' (d' + 1))) :
    RelatedNested R (ev.evaluateAction (n + 1) d) (ev'.evaluateAction (n' + 1) d') := by
  intro a inputs
  rw [Evaluator.evaluateAction, Evaluator.evaluateAction, h.inject]
  refine h.congruence.bind (h.congruence.refl rfl) fun inputs => ?_
  exact h.congruence.bind (h.compute hn a inputs) fun _ => h.congruence.refl rfl

end Alike

end Evaluator

end Dataflow
