import Dataflow.Evaluation
import Dataflow.Proofs.Action.Acceptance

/-!
# Inputs by their last values

The inputs of an evaluation are collected from pairs of a name and a value, and a later pair
takes the place of an earlier one of its name. Collected in this way, lists that have the same last
value for every name (`SameLast`) list the same entries (`OrderedMap.perm_ofList_iff`), though
perhaps in another order. The validation of the inputs puts them in the order of the inlets, the
first thing that is done to them; so this order shows only if they are refused for their names
(`Evaluator.RefusedAlike`), in the list of the names that no inlet has.

* `Evaluator.evaluate_of_sameLast`: an evaluation knows its inputs by their last values.
-/

namespace Dataflow

/-- Records of the same entries are validated alike unless they are refused for their names; then
    the errors differ in the order of the names that no port has. -/
theorem Action.validate_or_mismatch (a : Action) (direction : Direction) {values values' : Record}
    (h : values.entries.Perm values'.entries) :
    a.validate direction values = a.validate direction values' ∨
      ∃ unexpected unexpected' missing, unexpected.Perm unexpected' ∧
        a.validate direction values =
          .error (.mismatchedKeys a.code direction unexpected missing) ∧
        a.validate direction values' =
          .error (.mismatchedKeys a.code direction unexpected' missing) := by
  have hkeys : values.keys.Perm values'.keys := h.map Prod.fst
  by_cases hnamed : a.Named direction values'
  · exact .inl (validate_of_perm h hnamed)
  · have hnamed' : ¬a.Named direction values := fun h' =>
      hnamed fun name => hkeys.mem_iff.symm.trans (h' name)
    have hmissing : (a.ports direction).names.filter (· ∉ values'.keys) =
        (a.ports direction).names.filter (· ∉ values.keys) :=
      List.filter_congr fun name _ => by simp only [hkeys.mem_iff]
    exact .inr ⟨_, _, _, hkeys.filter _, validate_of_not_named hnamed',
      by rw [validate_of_not_named hnamed, hmissing]⟩

namespace Evaluator

/-- An action refuses two records at its inlets for their names, with errors that differ in the
    order of the names that no inlet has. -/
inductive RefusedAlike (ev : Evaluator) (a : Action) (inputs inputs' : Record) :
    Halt → Halt → Prop
  | mismatch {unexpected unexpected' missing : List String} (hperm : unexpected.Perm unexpected')
    (h : a.validate .inward (ev.inject a inputs) =
      .error (.mismatchedKeys a.code .inward unexpected missing))
    (h' : a.validate .inward (ev.inject a inputs') =
      .error (.mismatchedKeys a.code .inward unexpected' missing)) :
    RefusedAlike ev a inputs inputs'
      (.failed (.mismatchedKeys a.code .inward unexpected missing))
      (.failed (.mismatchedKeys a.code .inward unexpected' missing))

variable (ev : Evaluator) {a : Action} {inputs inputs' : Record} {e : Error}

/-- The context comes into both of two records of the same entries. -/
theorem perm_inject (a : Action) (h : inputs.entries.Perm inputs'.entries) :
    (ev.inject a inputs).entries.Perm (ev.inject a inputs').entries := by
  rw [inject, inject]
  split
  · exact OrderedMap.perm_insert h _ _
  · exact h

/-- All that an evaluation sees of its inputs is what comes of their validation. -/
theorem evaluate_congr
    (h : a.validate .inward (ev.inject a inputs) = a.validate .inward (ev.inject a inputs'))
    (limit : Nat) : ev.evaluate limit a inputs = ev.evaluate limit a inputs' := by
  have haction : ev.evaluateAction limit 0 a inputs = ev.evaluateAction limit 0 a inputs' := by
    cases limit with
    | zero => rfl
    | succ n => rw [evaluateAction, evaluateAction, h]
  rw [evaluate, evaluate, haction]

/-- An evaluation whose inputs are refused has started, and does nothing else. -/
theorem evaluate_of_refused (h : a.validate .inward (ev.inject a inputs) = .error e) (n : Nat) :
    ev.evaluate (n + 1) a inputs =
      ⟨[.evaluationStarted a.code a.isAlgorithm], .error (.failed e)⟩ := by
  rw [evaluate, evaluateAction, h]
  rfl

/-- Evaluations with the same last values as inputs are the same run, events included, unless both
    end where the inputs are refused for their names. -/
theorem evaluate_of_sameLast (a : Action) {l l' : List (String × Value)} (h : SameLast l l')
    (limit : Nat) :
    (ev.evaluate limit a (.ofList l)).SameUpTo (ev.RefusedAlike a (.ofList l) (.ofList l'))
      (ev.evaluate limit a (.ofList l')) := by
  rcases a.validate_or_mismatch .inward (ev.perm_inject a (OrderedMap.perm_ofList_iff.2 h)) with
    hvalidate | ⟨_, _, _, hperm, hleft, hright⟩
  · exact .inl (ev.evaluate_congr hvalidate limit)
  · cases limit with
    | zero => exact .inl rfl
    | succ n =>
      rw [ev.evaluate_of_refused hleft, ev.evaluate_of_refused hright]
      exact .inr ⟨rfl, _, _, .mismatch hperm hleft hright, rfl, rfl⟩

end Evaluator

end Dataflow
