import Dataflow.Proofs.Evaluation.Inputs
import Dataflow.Proofs.Evaluation.Rewiring

/-!
# The context is ambient

An inlet that receives the context gets that of the evaluation and nothing else. There are two
ways in which it is put there. Whatever a caller, a bind or a delegating action supplies under
the first such inlet of an action is replaced when the action is evaluated
(`Evaluator.inject`), and a step takes the context at all of them, whatever they are bound to
(`Evaluator.argument`). So every visit has the context there (`Evaluator.Visits.hasContext`), and
with it the host function that the visit calls; and an evaluation does not depend on what else
could have come there (`Evaluator.evaluate_congr_of_erase`, `Evaluator.evaluate_of_resembles`).
-/

namespace Dataflow

namespace Evaluator

variable {ev : Evaluator} {n d : Nat} {a : Action} {inputs inputs' validated : Record}
  {port : Port} {name : String} {v : Visit}

theorem get?_inject (h : a.contextInlet? = some port) :
    (ev.inject a inputs).get? port.parameter.name = some (.context ev.context) := by
  rw [inject, h]
  dsimp only
  rw [OrderedMap.get?_insert, if_pos rfl]

/-- The context stays where it is. -/
theorem get?_inject_of_context (h : inputs.get? name = some (.context ev.context)) :
    (ev.inject a inputs).get? name = some (.context ev.context) := by
  rw [inject]
  split
  · rw [OrderedMap.get?_insert, h, ite_self]
  · exact h

/-- The values of a visit have the context at the first inlet that receives it, and on behalf of a
    step at all of them. -/
def HasContext (ev : Evaluator) (v : Visit) (values : Record) : Prop :=
  (∀ port, v.action.contextInlet? = some port →
    values.get? port.parameter.name = some (.context ev.context)) ∧
  (v.role = .step → ∀ p ∈ v.action.inlets.parameters, p.type.isContext = true →
    values.get? p.name = some (.context ev.context))

/-- The context is among what a visit is computed on. -/
theorem Visits.hasContext (h : ev.Visits n ⟨.caller, d, a, inputs⟩ v)
    (hvalidated : v.action.validate .inward (ev.inject v.action v.inputs) = .ok validated) :
    ev.HasContext v validated := by
  have hpasses := Action.passes_of_validate hvalidated
  constructor
  · intro port hport
    obtain ⟨hp, hc⟩ := Action.mem_of_contextInlet? hport
    exact (hpasses.get?_of_isContext hp hc).trans (get?_inject hport)
  · intro hrole p hp hc
    have hambient : ev.Ambient v := h.ambient fun hrole => nomatch hrole
    exact (hpasses.get?_of_isContext hp hc).trans
      (get?_inject_of_context (hambient hrole p hp hc))

/-- Inputs that differ under the first inlet that receives the context are validated alike. -/
theorem validate_inject_congr (hport : a.contextInlet? = some port)
    (h : inputs'.erase port.parameter.name = inputs.erase port.parameter.name) :
    a.validate .inward (ev.inject a inputs') = a.validate .inward (ev.inject a inputs) := by
  have hname : port.parameter.name ∈ a.inlets.names :=
    List.mem_map_of_mem (Action.mem_of_contextInlet? hport).1
  have hothers (r : Record) (v : Value) :
      (r.insert port.parameter.name v).keys.filter (· ∉ a.inlets.names) =
        (r.erase port.parameter.name).keys.filter (· ∉ a.inlets.names) := by
    rw [OrderedMap.filter_keys_insert, OrderedMap.filter_keys_erase] <;> simpa using hname
  rw [inject, inject, hport]
  dsimp only
  refine Action.validate_congr (fun name _ => ?_) ?_
  · rw [OrderedMap.get?_insert, OrderedMap.get?_insert]
    split
    · rfl
    · next hne => rw [← OrderedMap.get?_erase_of_ne hne, h, OrderedMap.get?_erase_of_ne hne]
  · exact (hothers inputs' _).trans (h ▸ (hothers inputs _).symm)

/-- What a caller supplies for the first inlet that receives the context changes nothing. -/
theorem evaluate_congr_of_erase (hport : a.contextInlet? = some port)
    (h : inputs'.erase port.parameter.name = inputs.erase port.parameter.name) (limit : Nat) :
    ev.evaluate limit a inputs' = ev.evaluate limit a inputs :=
  ev.evaluate_congr (validate_inject_congr hport h) limit

end Evaluator

/-- Inlets that receive the context are fed by the context of the evaluation alone. In every visit
    of an evaluation the validated inputs have it at the first such inlet, and on behalf of a step
    at all of them. These are what a host function is called with, and what it returns is what the
    visit comes to; where it would not be there, no body is called, so that the evaluation is the
    same if all bodies differ there. The evaluation is the same run, events included, whatever the
    caller supplies for the first such inlet, if anything, and however the algorithms that are
    evaluated, as steps or for strategies that delegate, are rewired; to rewire one is to add,
    replace or remove binds of such inlets. -/
theorem context_is_ambient (ev : Evaluator) (a : Action) (inputs : Record) :
    (∀ limit v validated, ev.Visits limit ⟨.caller, 0, a, inputs⟩ v →
      v.action.validate .inward (ev.inject v.action v.inputs) = .ok validated →
        ev.HasContext v validated) ∧
    (∀ limit v s c args, ev.Visits limit ⟨.caller, 0, a, inputs⟩ v → ev.CallsBody v s c args →
      ev.HasContext v args ∧
        ∀ n, (ev.evaluateAction (n + 1) v.depth v.action v.inputs).result =
          (v.outputs s c args).mapError .failed) ∧
    (∀ limit catalog, ev.catalog.Resembles (fun code s args => ∃ v c,
        ev.Visits limit ⟨.caller, 0, a, inputs⟩ v ∧ v.action.code = code ∧
          ev.CallsBody v s c args ∧ ev.HasContext v args) catalog →
      (Evaluator.mk catalog ev.config ev.context).evaluate limit a inputs =
        ev.evaluate limit a inputs) ∧
    (∀ port inputs', a.contextInlet? = some port →
      inputs'.erase port.parameter.name = inputs.erase port.parameter.name →
        ∀ limit, ev.evaluate limit a inputs' = ev.evaluate limit a inputs) ∧
    (∀ catalog a', ev.catalog.Resembles (fun _ _ _ => True) catalog → a.Rewired a' →
      ∀ limit, (Evaluator.mk catalog ev.config ev.context).evaluate limit a' inputs =
        ev.evaluate limit a inputs) ∧
    ∀ (A : Action) (g : Graph) (k i : Nat) (s : Step) (p : Parameter), A.graph = some g →
      g.Consistent A → g.steps[k]? = some s → s.action.inlets.parameters[i]? = some p →
      p.type.isContext = true →
        (∀ source, A.Rewired
          { A with graph := some { g with binds := g.binds.insert (.stepInlet ⟨k, i⟩) source } }) ∧
        A.Rewired
          { A with graph := some { g with binds := g.binds.erase (.stepInlet ⟨k, i⟩) } } := by
  refine ⟨fun limit v validated h hvalidated => h.hasContext hvalidated,
    fun limit v s c args hv h => ⟨hv.hasContext h.validated, h.result_evaluateAction⟩,
    fun limit catalog hcatalog => ?_,
    fun port inputs' hport h => Evaluator.evaluate_congr_of_erase hport h,
    fun catalog a' hcatalog ha limit => ?_, fun A g k i s p hg hconsistent hs hp hc => ?_⟩
  · exact Evaluator.evaluate_of_resembles ⟨hcatalog, rfl, rfl⟩ (.refl a)
      fun v hv s c args h => ⟨v, c, hv, rfl, h, hv.hasContext h.validated⟩
  · exact Evaluator.evaluate_of_resembles ⟨hcatalog, rfl, rfl⟩ ha fun _ _ _ _ _ _ => trivial
  · have hd := hconsistent.receivesContext hs hp hc
    exact ⟨.insert hg hd, .erase hg hd⟩

namespace Relay

/-- The relay with a bind by which its second step would read its own outlet for the context. -/
def selfReading : Action :=
  let binds := graph.binds.insert (.stepInlet ⟨1, 0⟩) (.stepOutlet ⟨1, 0⟩)
  { relay with graph := some { graph with binds } }

/-- What the second step takes beside the context. -/
def halves : Record := .ofList [("left", .json (.bool true)), ("right", .json .null)]

/-- The second step is visited when the relay is evaluated. -/
theorem visits_join : evaluator.Visits 2 ⟨.caller, 0, relay, single "a" (.bool true)⟩
    ⟨.step, 1, join, .ofList (("context", .context evaluator.context) :: halves.entries)⟩ :=
  have hinputs : relay.validate .inward (evaluator.inject relay (single "a" (.bool true))) =
      .ok (single "a" (.bool true)) := rfl
  .nested hinputs (.step (g := graph) (k := 1) (s := ⟨"Relay", 1, join⟩) rfl rfl rfl rfl rfl)
    .self

/-- Joins two values where there is a context beside them. -/
def pairInContext : Callable where
  signature := pair.signature
  body args :=
    match args.get? "context" with
    | some (.context _) => pair.body args
    | _ => .error ⟨"no context"⟩

theorem body_pairInContext {args : Record} {context : Context}
    (h : args.get? "context" = some (.context context)) :
    pairInContext.body args = pair.body args := by
  rw [pairInContext]
  dsimp only
  rw [h]

/-- The evaluator with a host function for joins. -/
def joinEvaluator (c : Callable) : Evaluator :=
  ⟨⟨∅, ∅, ⟨.ofList [("Join", .ofList [(engine, ⟨join, engine, .callable c⟩)])]⟩⟩, .default,
    .ofSettings 0 []⟩

/-- What the join on its own is called with. -/
theorem callsBody_join : (joinEvaluator pair).CallsBody ⟨.caller, 0, join, halves⟩
    ⟨join, engine, .callable pair⟩ pair
    (.ofList (("context", .context (joinEvaluator pair).context) :: halves.entries)) :=
  ⟨rfl, rfl, rfl, rfl, rfl⟩

end Relay

/-- The second step of the relay has the context; evaluated on its own it has it as well, whatever
    is supplied in its place, so that its host function may insist on it; and the relay does not
    mind a bind for it. -/
theorem context_is_ambient_relay :
    (∃ v validated,
      Relay.evaluator.Visits 2 ⟨.caller, 0, Relay.relay, Relay.single "a" (.bool true)⟩ v ∧
        v.role = .step ∧ v.action = Relay.join ∧
        v.action.validate .inward (Relay.evaluator.inject v.action v.inputs) = .ok validated ∧
        validated.get? "context" = some (.context Relay.evaluator.context)) ∧
      (∀ limit, Relay.evaluator.evaluate limit Relay.join
          (Relay.halves.insert "context" (.json .null)) =
        Relay.evaluator.evaluate limit Relay.join Relay.halves) ∧
      ((Relay.joinEvaluator Relay.pair).evaluateAction 1 0 Relay.join Relay.halves).result =
        .ok (Relay.single "res" (.array [.bool true, .null])) ∧
      (Relay.joinEvaluator Relay.pairInContext).evaluate 1 Relay.join Relay.halves =
        (Relay.joinEvaluator Relay.pair).evaluate 1 Relay.join Relay.halves ∧
      ∀ limit, Relay.evaluator.evaluate limit Relay.selfReading (Relay.single "a" (.bool true)) =
        Relay.evaluator.evaluate limit Relay.relay (Relay.single "a" (.bool true)) := by
  obtain ⟨hvisits, -, -, -, hrewired, hedits⟩ :=
    context_is_ambient Relay.evaluator Relay.relay (Relay.single "a" (.bool true))
  obtain ⟨-, -, -, hinput, -, -⟩ := context_is_ambient Relay.evaluator Relay.join Relay.halves
  obtain ⟨-, hcalls, hbodies, -, -, -⟩ :=
    context_is_ambient (Relay.joinEvaluator Relay.pair) Relay.join Relay.halves
  obtain ⟨hinsert, -⟩ := hedits Relay.relay Relay.graph 1 0 ⟨"Relay", 1, Relay.join⟩ .context rfl
    (Relay.built.wellFormed_of_graph rfl).toConsistent rfl rfl rfl
  refine ⟨⟨_, _, Relay.visits_join, rfl, rfl, rfl, ?_⟩, hinput _ _ rfl rfl, ?_, ?_,
    hrewired _ _ (Catalog.resembles_refl _ _) (hinsert (.stepOutlet ⟨1, 0⟩))⟩
  · exact (hvisits 2 _ _ Relay.visits_join rfl).2 rfl .context List.mem_cons_self rfl
  · exact ((hcalls 1 _ _ _ _ .self Relay.callsBody_join).2 0).trans rfl
  · refine hbodies 1 _ (Catalog.resembles_of_single rfl rfl (.cons ⟨rfl, rfl, rfl, ?_⟩ .nil))
    refine .callable rfl fun args ⟨v, c, hv, _, _, hcontext, _⟩ => ?_
    obtain rfl := hv.eq_of_one
    exact Relay.body_pairInContext (hcontext _ rfl)

end Dataflow
