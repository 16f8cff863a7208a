import Dataflow.Proofs.Action.Revalidation
import Dataflow.Proofs.Evaluation.Ambient
import Dataflow.Proofs.Evaluation.Nesting

/-!
# Actions that stand for others

An action *stands for* another one with some inputs if its evaluation cannot be told from that of
the other, but for the action that an error names if it refuses the inputs
(`Evaluator.StandsFor`). Between two actions with the same ports this is so if the first is
computed by evaluating the second (`Evaluator.StandsFor.of_compute`): the inputs and the outputs
pass through the same ports twice, and idempotent types do not mind.

Delegation is of this kind. A plain action whose strategy delegates to an action with the same
ports stands for that action (`standsFor_of_delegation`).
-/

namespace Dataflow

namespace Evaluator

variable (ev : Evaluator)

/-- The evaluation of an action is that of another one, but for the action that an error names if
    the inputs are refused. -/
structure StandsFor (a b : Action) (inputs : Record) : Prop where
  /-- It succeeds exactly if the other one does, with the same outputs. -/
  succeeds : ∀ outputs, ev.Returns a inputs (.ok outputs) ↔ ev.Returns b inputs (.ok outputs)
  /-- If the other one refuses the inputs, it does so as well, in its own name. -/
  refuses : ∀ e, b.validate .inward (ev.inject b inputs) = .error e →
    ev.Returns b inputs (.error e) ∧ ev.Returns a inputs (.error (e.naming a.code))
  /-- If the other one accepts the inputs, it fails exactly if the other one does, with the same
      error. -/
  fails : ∀ validated, b.validate .inward (ev.inject b inputs) = .ok validated →
    ∀ e, ev.Returns a inputs (.error e) ↔ ev.Returns b inputs (.error e)

variable {ev} {a b : Action} {inputs outputs validated : Record} {n d : Nat} {e : Error}

/-! ## The stages of an evaluation, over again -/

/-- Where the context is put is a matter of the inlets alone. -/
theorem inject_congr (h : a.inlets = b.inlets) (inputs : Record) :
    ev.inject a inputs = ev.inject b inputs := by
  have hparameter : a.contextInlet?.map Port.parameter = b.contextInlet?.map Port.parameter := by
    rw [Action.contextInlet?, Action.contextInlet?, h]
    cases b.inlets.contextIndex? with
    | none => rfl
    | some i =>
      show (a.portAt? .inward i).map Port.parameter = (b.portAt? .inward i).map Port.parameter
      rw [Action.portAt?, Action.portAt?, Action.ports, Action.ports, h, Option.map_map,
        Option.map_map]
      rfl
  rw [inject, inject]
  cases ha : a.contextInlet? with
  | none =>
    rw [ha] at hparameter
    rw [Option.map_eq_none_iff.1 hparameter.symm]
  | some port =>
    rw [ha] at hparameter
    obtain ⟨port', hb, hport⟩ := Option.map_eq_some_iff.1 hparameter.symm
    rw [hb]
    dsimp only
    rw [hport]

/-- Validated inputs have the context where it is put. -/
theorem inject_of_validate (h : a.validate .inward (ev.inject a inputs) = .ok validated) :
    ev.inject a validated = validated := by
  rw [inject]
  split
  · next port hport =>
    obtain ⟨hp, hc⟩ := Action.mem_of_contextInlet? hport
    exact OrderedMap.insert_of_get?_eq_some
      (((Action.passes_of_validate h).get?_of_isContext hp hc).trans (get?_inject hport))
  · rfl

/-- An evaluation with validated inputs is the same. -/
theorem evaluateAction_of_validate (hidempotent : a.inlets.Idempotent)
    (h : a.validate .inward (ev.inject a inputs) = .ok validated) (n d : Nat) :
    ev.evaluateAction n d a validated = ev.evaluateAction n d a inputs := by
  cases n with
  | zero => rfl
  | succ n =>
    have hagain : a.validate .inward validated = .ok validated :=
      Action.validate_of_validate hidempotent h
    rw [evaluateAction, evaluateAction, inject_of_validate h, h, hagain]

/-- The outputs of an evaluation pass through the outlets again. -/
theorem validate_of_evaluateAction (hidempotent : a.outlets.Idempotent)
    (h : (ev.evaluateAction n d a inputs).result = .ok outputs) :
    a.validate .outward outputs = .ok outputs := by
  cases n with
  | zero => cases h
  | succ n =>
    obtain ⟨_, -, results, -, houtputs⟩ := ev.evaluateAction_eq_ok_iff.1 h
    exact Action.validate_of_validate hidempotent houtputs

theorem returns_of_validate_error (h : a.validate .inward (ev.inject a inputs) = .error e) :
    ev.Returns a inputs (.error e) :=
  returns_of_evaluateAction (n := 1) (d := 0) (ev.evaluateAction_eq_error_iff.2 (.inl h))

/-! ## Standing for another action -/

section

variable (hinlets : a.inlets = b.inlets) (houtlets : a.outlets = b.outlets)
  (hin : b.inlets.Idempotent) (hout : b.outlets.Idempotent)

include hinlets houtlets hin hout

/-- An action that is computed by evaluating another one gives what that gives, a level deeper. -/
theorem result_of_compute (hinputs : b.validate .inward (ev.inject b inputs) = .ok validated)
    (hcompute : (ev.compute (ev.evaluateAction n (d + 1)) d a validated).result =
      (ev.evaluateAction n (d + 1) b validated).result) :
    (ev.evaluateAction (n + 1) d a inputs).result =
      (ev.evaluateAction n (d + 1) b inputs).result := by
  have hinputs' : a.validate .inward (ev.inject a inputs) = .ok validated := by
    rw [inject_congr hinlets]
    exact Action.validate_eq_ok_of_ports_eq hinlets hinputs
  rw [evaluateAction, hinputs']
  simp only [Run.result_bind]
  show ((ev.compute (ev.evaluateAction n (d + 1)) d a validated).result >>= fun outputs => _) = _
  rw [hcompute, evaluateAction_of_validate hin hinputs]
  cases hresult : (ev.evaluateAction n (d + 1) b inputs).result with
  | error halt => rfl
  | ok outputs =>
    -- The outlets of both let the outputs through as they are.
    have houtputs : a.validate .outward outputs = .ok outputs :=
      Action.validate_eq_ok_of_ports_eq houtlets (validate_of_evaluateAction hout hresult)
    show (expect (a.validate .outward outputs)).result = .ok outputs
    rw [houtputs]
    rfl

/-- An action that is computed by evaluating another one with the same ports stands for it. -/
theorem StandsFor.of_compute
    (hcompute : ∀ n d validated, b.validate .inward (ev.inject b inputs) = .ok validated →
      (ev.compute (ev.evaluateAction n (d + 1)) d a validated).result =
        (ev.evaluateAction n (d + 1) b validated).result) : ev.StandsFor a b inputs := by
  rcases hinputs : b.validate .inward (ev.inject b inputs) with e | validated
  · -- Both refuse the inputs.
    have hb := returns_of_validate_error hinputs
    have ha : ev.Returns a inputs (.error (e.naming a.code)) := by
      refine returns_of_validate_error ?_
      have hports : a.ports .inward = b.ports .inward := hinlets
      rw [inject_congr hinlets, Action.validate_of_ports_eq hports, hinputs]
      rfl
    refine ⟨fun outputs => ⟨fun h => ?_, fun h => ?_⟩, fun e' he' => ?_, fun v hv => ?_⟩
    · cases h.unique ha
    · cases h.unique hb
    · obtain rfl := Except.error.inj (hinputs.symm.trans he')
      exact ⟨hb, ha⟩
    · rw [hinputs] at hv
      cases hv
  · have hresult (n d : Nat) := result_of_compute hinlets houtlets hin hout hinputs
      (hcompute n d validated hinputs)
    have hreturns (r : Except Error Record) : ev.Returns a inputs r ↔ ev.Returns b inputs r := by
      constructor
      · intro h
        obtain ⟨n, hn⟩ := h.exists_succ
        rw [hresult] at hn
        exact returns_of_evaluateAction hn
      · intro h
        obtain ⟨n, hn⟩ := h.eventually
        have hlevel := hn n (Nat.le_refl n) 1
        rw [← hresult] at hlevel
        exact returns_of_evaluateAction hlevel
    refine ⟨fun outputs => hreturns _, fun e he => ?_, fun _ _ e => hreturns _⟩
    rw [hinputs] at he
    cases he

end

/-- A plain action whose strategy delegates is computed by evaluating the target. -/
theorem result_compute_of_target {nested : Nested} {s : Strategy} (hplain : a.graph = none)
    (hs : ev.chooseStrategy a = .ok s) (htarget : s.target = .action b) (inputs : Record) :
    (ev.compute nested d a inputs).result = (nested b inputs).result := by
  rw [ev.compute_of_plain hplain, Run.result_bind, result_select, hs]
  show (runStrategy nested a inputs s).result = _
  rw [runStrategy, htarget]

end Evaluator

/-- Delegation cannot be seen. If a plain action has the same inlets and outlets as the action that
    its strategy delegates to, and the types of these are idempotent, its evaluation succeeds
    exactly if that of the other does, with the same outputs, and fails with the same error, except
    that it refuses inputs in its own name. -/
theorem standsFor_of_delegation {ev : Evaluator} {a target : Action} {s : Strategy}
    (hplain : a.graph = none) (hs : ev.chooseStrategy a = .ok s)
    (htarget : s.target = .action target) (hinlets : a.inlets = target.inlets)
    (houtlets : a.outlets = target.outlets) (hin : target.inlets.Idempotent)
    (hout : target.outlets.Idempotent) (inputs : Record) : ev.StandsFor a target inputs :=
  .of_compute hinlets houtlets hin hout fun _ _ _ _ =>
    Evaluator.result_compute_of_target hplain hs htarget _

namespace Relay

/-- The evaluator with the action in front of the relay. -/
def frontEvaluator : Evaluator := { evaluator with catalog := frontCatalog }

theorem idempotent_inlets : relay.inlets.Idempotent := by
  intro p hp
  rw [List.mem_singleton.1 hp]
  exact ValueType.idempotent_any

theorem idempotent_outlets : relay.outlets.Idempotent := by
  intro p hp
  rw [List.mem_singleton.1 hp]
  exact ValueType.idempotent_any

end Relay

/-- The action in front of the relay gives what the relay gives, and refuses what it refuses, in its
    own name. -/
theorem standsFor_of_delegation_front :
    Relay.frontEvaluator.chooseStrategy Relay.front = .ok Relay.forward ∧
      Relay.frontEvaluator.Returns Relay.front (Relay.single "a" (.bool true))
        (.ok (Relay.single "res" (.array [.bool true, .null]))) ∧
      Relay.frontEvaluator.Returns Relay.front ∅
        (.error (.mismatchedKeys "Front" .inward [] ["a"])) := by
  have hstands (inputs : Record) : Relay.frontEvaluator.StandsFor Relay.front Relay.relay inputs :=
    standsFor_of_delegation (a := Relay.front) (s := Relay.forward) rfl rfl rfl rfl rfl
      Relay.idempotent_inlets Relay.idempotent_outlets inputs
  exact ⟨rfl, ((hstands _).succeeds _).2 ⟨2, rfl⟩, ((hstands ∅).refuses _ rfl).2⟩

end Dataflow
