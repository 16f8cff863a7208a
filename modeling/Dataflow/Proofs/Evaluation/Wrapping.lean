import Dataflow.Proofs.Builder.Wrapper
import Dataflow.Proofs.Evaluation.Delegation

/-!
# Wrapped actions

An algorithm that wraps an action (`Graph.Wraps`) evaluates it as its only step. Where a step and a
caller differ is the context: a step has it at all inlets that receive it, a caller at the first
one. So if there is one such inlet at most, the step takes what the algorithm takes
(`Graph.Wraps.arguments?`), the algorithm is computed by evaluating the action
(`Evaluator.result_compute_of_wraps`), and it stands for the action (`standsFor_of_wrapping`).
-/

namespace Dataflow

namespace Graph.Wraps

variable {g : Graph} {w a : Action} {σ : Assignment} {context : Context} {inputs : Record}
  (h : g.Wraps w a)

include h

/-- The step takes the inputs of the algorithm, if they have the context where inlets receive
    it. -/
theorem arguments? (hkeys : inputs.keys = a.inlets.names)
    (hcontext : ∀ p ∈ a.inlets.parameters, p.type.isContext = true →
      inputs.get? p.name = some (.context context)) :
    σ.arguments? context g inputs ⟨w.code, 0, a⟩ = some inputs := by
  refine Evaluator.map_ofList_collect hkeys fun i p hp => ?_
  have hi : i < a.inlets.size := (List.getElem?_eq_some_iff.1 hp).1
  rw [Assignment.argument?]
  split
  · next hc =>
    -- The value of the port is that under its name.
    have hname : inputs.keys[i]? = some p.name := by
      rw [hkeys, Ports.names, List.getElem?_map, hp]
      rfl
    rw [OrderedMap.getElem?_values hname, hcontext p (List.mem_of_getElem? hp) hc]
  · rw [h.sourceOf?_stepInlet hi]
    rfl

/-- The algorithm results in what the step gives. -/
theorem results? (houtlets : w.outlets = a.outlets) :
    σ.results? g inputs w = some (σ.outputs ⟨w.code, 0, a⟩) := by
  refine Evaluator.map_ofList_collect ?_ fun i p hp => ?_
  · rw [Assignment.keys_outputs, houtlets]
    rfl
  · rw [houtlets] at hp
    have hi : i < a.outlets.size := (List.getElem?_eq_some_iff.1 hp).1
    rw [h.sourceOf?_outlet hi, Assignment.getElem?_values_outputs hi]
    rfl

end Graph.Wraps

namespace Evaluator

variable {ev : Evaluator} {nested : Nested} {d : Nat} {w a : Action} {g : Graph}
  {inputs validated : Record}

/-- The algorithm is computed by evaluating the action. -/
theorem result_compute_of_wraps (h : g.Wraps w a) (hg : w.graph = some g)
    (hinlets : w.inlets = a.inlets) (houtlets : w.outlets = a.outlets)
    (hnested : NamesOutlets nested) (hkeys : inputs.keys = a.inlets.names)
    (hcontext : ∀ p ∈ a.inlets.parameters, p.type.isContext = true →
      inputs.get? p.name = some (.context ev.context)) :
    (ev.compute nested d w inputs).result = (nested a inputs).result := by
  have hwf := h.wellFormed hinlets houtlets
  have hkeys' : inputs.keys = w.inlets.names := hkeys.trans (hinlets ▸ rfl)
  rw [ev.compute_of_graph hg]
  cases hresult : (nested a inputs).result with
  | error halt =>
    exact (ev.evaluateGraph_eq_error_iff hwf hkeys' hnested).2
      ⟨0, .nested (σ := default) h.getElem?_zero (fun j _ => h.inOrder j)
        Assignment.solvesBelow_zero (h.arguments? hkeys hcontext) hresult⟩
  | ok outputs =>
    -- The values of the step are those that the action gives.
    have houtputs : (Assignment.set default 0 outputs).outputs ⟨w.code, 0, a⟩ = outputs :=
      Assignment.outputs_set (s := ⟨w.code, 0, a⟩) (hnested _ _ _ hresult)
    refine (ev.evaluateGraph_eq_ok_iff hwf hkeys' hnested).2
      ⟨h.inOrder, Assignment.set default 0 outputs, fun j _ s hs => ?_, ?_⟩
    · obtain ⟨-, rfl⟩ := h.eq_of_getElem? hs
      rw [houtputs]
      exact ⟨inputs, h.arguments? hkeys hcontext, hresult⟩
    · rw [h.results? houtlets, houtputs]

/-- Validated inputs have the context at an inlet that is the only one to receive it. -/
theorem get?_of_validate {p : Parameter}
    (hinputs : a.validate .inward (ev.inject a inputs) = .ok validated)
    (hp : p ∈ a.inlets.parameters) (hc : p.type.isContext = true)
    (honly : ∀ q ∈ a.inlets.parameters, q.type.isContext = true → q = p) :
    validated.get? p.name = some (.context ev.context) := by
  obtain ⟨port, hport⟩ := Action.exists_contextInlet? hp hc
  obtain ⟨hmem, htype⟩ := Action.mem_of_contextInlet? hport
  rw [← honly _ hmem htype]
  exact ((Action.passes_of_validate hinputs).get?_of_isContext hmem htype).trans (get?_inject hport)

end Evaluator

/-- Wrapping cannot be seen. If an action has one inlet at most that receives the context, and the
    types of its inlets and outlets are idempotent, the evaluation of an algorithm in which it is
    wrapped succeeds exactly if that of the action does, with the same outputs, and fails with the
    same error, except that it refuses inputs in its own name. -/
theorem standsFor_of_wrapping {builder : Builder.Fallible Produced} {c : Catalog}
    {identity : Identity} {code : String} {a w : Action} {results : List Output}
    (hwraps : Builder.Wraps builder c identity code a results w)
    (honly : ∀ p ∈ a.inlets.parameters, ∀ q ∈ a.inlets.parameters,
      p.type.isContext = true → q.type.isContext = true → q = p)
    (hin : a.inlets.Idempotent) (hout : a.outlets.Idempotent) (ev : Evaluator) (inputs : Record) :
    ev.StandsFor w a inputs := by
  obtain ⟨hinlets, houtlets, g, hg, hgraph⟩ := hwraps.exists_graph
  refine .of_compute hinlets houtlets hin hout fun n d validated hinputs => ?_
  refine Evaluator.result_compute_of_wraps hgraph hg hinlets houtlets
    (ev.namesOutlets_evaluateAction n (d + 1)) (Action.keys_of_validate hinputs) fun p hp hc => ?_
  exact Evaluator.get?_of_validate hinputs hp hc fun q hq hq' => honly p hp q hq hc hq'

namespace Relay

theorem eq_context_of_join {p : Parameter} (hp : p ∈ join.inlets.parameters)
    (hc : p.type.isContext = true) : p = .context := by
  rcases List.mem_cons.1 hp with rfl | hp
  · rfl
  · rcases List.mem_cons.1 hp with rfl | hp
    · cases hc
    · rw [List.mem_singleton.1 hp] at hc
      cases hc

theorem idempotent_inlets_join : join.inlets.Idempotent := by
  intro p hp
  rcases List.mem_cons.1 hp with rfl | hp
  · exact ValueType.idempotent_context
  · rcases List.mem_cons.1 hp with rfl | hp
    · exact ValueType.idempotent_any
    · rw [List.mem_singleton.1 hp]
      exact ValueType.idempotent_any

/-- The join wrapped in an algorithm. -/
def wrappedJoin : Action := Builder.wrapped 0 "Wrapped" join

theorem wraps_join : Builder.Wraps (Builder.wrapper join) ∅ 0 "Wrapped" join
    [.port ⟨0, .stepOutlet ⟨0, 0⟩⟩] wrappedJoin :=
  Builder.wraps_wrapper ⟨List.not_mem_nil, List.not_mem_nil⟩ 0 join

end Relay

/-- The join has the context in an algorithm as well, and what it refuses the algorithm refuses, in
    its own name. -/
theorem standsFor_of_wrapping_join :
    Relay.evaluator.Returns Relay.wrappedJoin Relay.halves
        (.ok (Relay.single "res" (.array [.bool true, .null]))) ∧
      Relay.evaluator.Returns Relay.wrappedJoin ∅
        (.error (.mismatchedKeys "Wrapped" .inward [] ["left", "right"])) := by
  have hstands (inputs : Record) : Relay.evaluator.StandsFor Relay.wrappedJoin Relay.join inputs :=
    standsFor_of_wrapping Relay.wraps_join
      (fun p hp q hq hc hc' =>
        (Relay.eq_context_of_join hq hc').trans (Relay.eq_context_of_join hp hc).symm)
      Relay.idempotent_inlets_join Relay.idempotent_outlets Relay.evaluator inputs
  exact ⟨((hstands _).succeeds _).2 ⟨1, rfl⟩, ((hstands ∅).refuses _ rfl).2⟩

end Dataflow
