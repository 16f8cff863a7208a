import Dataflow.Proofs.Evaluation.Simulation

/-!
# Events of evaluations

Where the events of an evaluation come from: from its start and its end, from the choice of a
strategy, from the steps that are executed and the values that these take and give, and from
the evaluations nested in it. What holds of all of these holds of every event
(`Evaluator.alike_events`).
-/

namespace Dataflow.Evaluator

variable (ev : Evaluator) {d : Nat} {e : Event}

theorem eq_of_mem_events_logValues {e' : Event} (h : e ∈ (ev.logValues e').events) : e = e' := by
  rw [logValues] at h
  split at h
  · exact List.mem_singleton.1 h
  · cases h

/-- What holds of the events of an evaluation itself holds of all if it holds of those of the
    evaluations nested in it. -/
theorem alike_events {P : Event → Prop}
    (hselected : ∀ a s, ev.chooseStrategy a = .ok s → P (.strategySelected a.code s.engine d))
    (hexecuting : ∀ code step action, P (.executingStep code step action d))
    (hinputs : ∀ step j, P (.stepInputs step j)) (houtputs : ∀ step j, P (.stepOutputs step j)) :
    Alike (fun _ x _ => ∀ e ∈ x.events, P e) ev ev d d where
  congruence := Run.isCongruence_events _
  context := rfl
  selection a e he := by
    obtain ⟨s, hs, rfl⟩ := ev.eq_of_mem_events_select he
    exact hselected a s hs
  executing code step action e he := List.mem_singleton.1 he ▸ hexecuting code step action
  inputs step j e he := ev.eq_of_mem_events_logValues he ▸ hinputs step j
  outputs step j e he := ev.eq_of_mem_events_logValues he ▸ houtputs step j

/-- An evaluation logs its start and its end beside what the evaluation of the action does. -/
theorem mem_events_evaluate {limit : Nat} {a : Action} {inputs : Record}
    (h : e ∈ (ev.evaluate limit a inputs).events) :
    (∃ code algorithm, e = .evaluationStarted code algorithm) ∨
      e ∈ (ev.evaluateAction limit 0 a inputs).events ∨
        ∃ code outputs, e = .evaluationCompleted code outputs := by
  rw [evaluate] at h
  rcases Run.mem_events_bind.1 h with h | ⟨_, -, h⟩
  · exact .inl ⟨_, _, List.mem_singleton.1 h⟩
  · rcases Run.mem_events_bind.1 h with h | ⟨outputs, -, h⟩
    · exact .inr (.inl h)
    · rcases Run.mem_events_bind.1 h with h | ⟨_, -, h⟩
      · exact .inr (.inr ⟨_, _, List.mem_singleton.1 h⟩)
      · cases h

end Dataflow.Evaluator
