import Dataflow.Proofs.Action.Acceptance
import Dataflow.Proofs.Evaluation.Visits
import Dataflow.Proofs.Evaluation.Wrapping

/-!
# What a delegation hands over

A plain action that delegates hands over all of its validated inputs, the context among them, under
the name of its own context inlet. The target then puts the context under the name of the inlet
that it has for it, and counts the names exactly. So between actions with the same data inlets
(`Ports.data`) it is the name of the context inlet that decides. The target accepts what is handed
over if it has a context inlet of that name as well, or if there is no context inlet to hand over;
it refuses the context as an unexpected name if its own context inlet has another name, or if it
has none (`delegation_counts_context`). It may well accept the same inputs from a caller
(`not_accepted_by_target`).
-/

namespace Dataflow

namespace Ports

variable {ports : Ports} {p : Parameter} {name : String}

/-- The parameters that receive data, not the context. -/
def data (ports : Ports) : List Parameter := ports.parameters.filter (!·.type.isContext)

/-- At most one port receives the context. -/
def ContextUnique (ports : Ports) : Prop :=
  ∀ p ∈ ports.parameters, ∀ q ∈ ports.parameters,
    p.type.isContext = true → q.type.isContext = true → q = p

/-- A port that receives the context has this name. -/
def NamesContext (ports : Ports) (name : String) : Prop :=
  ∃ p ∈ ports.parameters, p.type.isContext = true ∧ p.name = name

theorem mem_data_iff : p ∈ ports.data ↔ p ∈ ports.parameters ∧ p.type.isContext = false := by
  rw [data, List.mem_filter, Bool.not_eq_true']

/-- A name is that of a data port or of a context port. -/
theorem mem_names_iff :
    name ∈ ports.names ↔ (∃ p ∈ ports.data, p.name = name) ∨ ports.NamesContext name := by
  rw [names, List.mem_map]
  constructor
  · rintro ⟨p, hp, hname⟩
    rcases hc : p.type.isContext with - | -
    · exact .inl ⟨p, mem_data_iff.2 ⟨hp, hc⟩, hname⟩
    · exact .inr ⟨p, hp, hc, hname⟩
  · rintro (⟨p, hp, hname⟩ | ⟨p, hp, -, hname⟩)
    · exact ⟨p, (mem_data_iff.1 hp).1, hname⟩
    · exact ⟨p, hp, hname⟩

/-- A data port and a context port do not share a name. -/
theorem NamesContext.ne_of_mem_data (h : ports.NamesContext name) (hp : p ∈ ports.data) :
    p.name ≠ name := by
  obtain ⟨q, hq, hc, rfl⟩ := h
  obtain ⟨hp, hdata⟩ := mem_data_iff.1 hp
  intro hname
  obtain rfl := List.inj_on_of_nodup_map ports.nodup hp hq hname
  rw [hdata] at hc
  cases hc

end Ports

/-- The context inlet is found under its name, if it is the only one. -/
theorem Action.exists_contextInlet?_of_namesContext {a : Action} {name : String}
    (ha : a.inlets.ContextUnique) (h : a.inlets.NamesContext name) :
    ∃ port, a.contextInlet? = some port ∧ port.parameter.name = name := by
  obtain ⟨p, hp, hc, rfl⟩ := h
  obtain ⟨port, hport⟩ := exists_contextInlet? hp hc
  obtain ⟨hmem, htype⟩ := mem_of_contextInlet? hport
  exact ⟨port, hport, by rw [ha p hp _ hmem hc htype]⟩

/-- The context type accepts every context. -/
theorem ValueType.validate_context (t : ValueType) (ht : t.isContext = true) (c : Context) :
    t.validate (.context c) = .ok (.context c) := by
  cases t with
  | custom code validator => cases ht
  | context => rfl

namespace Evaluator

variable {ev : Evaluator} {a target : Action} {inputs validated handed : Record} {p : Parameter}
  {name : String} {s : Strategy}

/-! ## Putting the context among inputs -/

theorem mem_keys_inject :
    name ∈ (ev.inject a inputs).keys ↔
      name ∈ inputs.keys ∨ ∃ port, a.contextInlet? = some port ∧ name = port.parameter.name := by
  rw [inject]
  cases hport : a.contextInlet? with
  | none => simp
  | some port =>
    dsimp only
    rw [← OrderedMap.isSome_get?_iff, OrderedMap.get?_insert, ← OrderedMap.isSome_get?_iff]
    split <;> simp_all

/-- The name under which the context is put is not unexpected. -/
theorem filter_keys_inject :
    (ev.inject a inputs).keys.filter (· ∉ a.inlets.names) =
      inputs.keys.filter (· ∉ a.inlets.names) := by
  rw [inject]
  split
  · next port hport =>
    refine OrderedMap.filter_keys_insert ?_
    have hname : port.parameter.name ∈ a.inlets.names :=
      List.mem_map_of_mem (Action.mem_of_contextInlet? hport).1
    simpa using hname
  · rfl

/-- Data stays where it is. -/
theorem get?_inject_of_mem_data (hp : p ∈ a.inlets.data) :
    (ev.inject a inputs).get? p.name = inputs.get? p.name := by
  rw [inject]
  split
  · next port hport =>
    obtain ⟨hmem, hc⟩ := Action.mem_of_contextInlet? hport
    have hne : p.name ≠ port.parameter.name :=
      Ports.NamesContext.ne_of_mem_data ⟨_, hmem, hc, rfl⟩ hp
    rw [OrderedMap.get?_insert, if_neg hne]
  · rfl

/-! ## What the target is given -/

section

variable (hdata : a.inlets.data = target.inlets.data)
  (ht : target.inlets.ContextUnique) (hkeys : inputs.keys = a.inlets.names)

include hdata ht hkeys

/-- Nothing is missing from what is handed over, as the target puts the context itself. -/
theorem mem_keys_inject_of_mem_names (hname : name ∈ target.inlets.names) :
    name ∈ (ev.inject target inputs).keys := by
  rw [mem_keys_inject, hkeys]
  rcases Ports.mem_names_iff.1 hname with hdata' | ⟨q, hq, hc, rfl⟩
  · exact .inl (Ports.mem_names_iff.2 (.inl (hdata ▸ hdata')))
  · obtain ⟨port, hport, hname⟩ :=
      Action.exists_contextInlet?_of_namesContext ht ⟨q, hq, hc, rfl⟩
    exact .inr ⟨port, hport, hname.symm⟩

/-- The names are right exactly if the context is handed over under the name of an inlet that
    receives it. -/
theorem named_inject_iff :
    target.Named .inward (ev.inject target inputs) ↔
      ∀ name, a.inlets.NamesContext name → target.inlets.NamesContext name := by
  constructor
  · intro hnamed name hname
    have hmem : name ∈ target.inlets.names :=
      (hnamed name).1 (mem_keys_inject.2 (.inl (hkeys ▸ Ports.mem_names_iff.2 (.inr hname))))
    rcases Ports.mem_names_iff.1 hmem with ⟨q, hq, heq⟩ | hcontext
    · exact absurd heq (hname.ne_of_mem_data (hdata ▸ hq))
    · exact hcontext
  · intro hcontext name
    refine ⟨fun hname => ?_, mem_keys_inject_of_mem_names hdata ht hkeys⟩
    rcases mem_keys_inject.1 hname with hname | ⟨port, hport, rfl⟩
    · rw [hkeys, Ports.mem_names_iff, hdata] at hname
      exact Ports.mem_names_iff.2 (hname.imp_right (hcontext name))
    · exact List.mem_map_of_mem (Action.mem_of_contextInlet? hport).1

/-- A context that is handed over under a name that the target does not have for it is refused,
    and nothing else is. -/
theorem validate_inject_of_not_namesContext (ha : a.inlets.ContextUnique)
    (hname : a.inlets.NamesContext name) (hnot : ¬target.inlets.NamesContext name) :
    target.validate .inward (ev.inject target inputs) =
      .error (.mismatchedKeys target.code .inward [name] []) := by
  have hnamed : ¬target.Named .inward (ev.inject target inputs) :=
    fun h => hnot ((named_inject_iff hdata ht hkeys).1 h name hname)
  have hmissing : target.inlets.names.filter (· ∉ (ev.inject target inputs).keys) = [] :=
    List.filter_eq_nil_iff.2 fun other hother => by
      simpa using mem_keys_inject_of_mem_names hdata ht hkeys hother
  have hunexpected : (ev.inject target inputs).keys.filter (· ∉ target.inlets.names) = [name] := by
    rw [filter_keys_inject, hkeys]
    -- It is the only name of the action that the target does not have.
    have hnodup : a.inlets.names.Nodup := a.inlets.nodup
    refine List.perm_singleton.1 ((List.perm_ext_iff_of_nodup (hnodup.filter _)
      (List.nodup_singleton _)).2 fun other => ?_)
    rw [List.mem_filter, decide_eq_true_iff, List.mem_singleton, Ports.mem_names_iff,
      Ports.mem_names_iff, hdata]
    constructor
    · rintro ⟨hdata' | ⟨q, hq, hc, rfl⟩, hother⟩
      · exact absurd (.inl hdata') hother
      · obtain ⟨p, hp, hc', rfl⟩ := hname
        rw [ha p hp q hq hc' hc]
    · rintro rfl
      refine ⟨.inr hname, ?_⟩
      rintro (⟨q, hq, heq⟩ | hcontext)
      · exact hname.ne_of_mem_data (hdata ▸ hq) heq
      · exact hnot hcontext
  rw [Action.validate_of_not_named hnamed]
  show Except.error (Error.mismatchedKeys _ _
    ((ev.inject target inputs).keys.filter (· ∉ target.inlets.names))
    (target.inlets.names.filter (· ∉ (ev.inject target inputs).keys))) = _
  rw [hunexpected, hmissing]

end

section

variable (hdata : a.inlets.data = target.inlets.data)
  (hidempotent : ∀ p ∈ a.inlets.data, p.type.Idempotent)
  (hinputs : a.validate .inward (ev.inject a inputs) = .ok validated)

include hdata hidempotent hinputs

/-- The target accepts every value that is handed over, and returns it as it is. -/
theorem validate_of_mem_data (hp : p ∈ target.inlets.data) :
    ∃ v, validated.get? p.name = some v ∧ p.type.validate v = .ok v := by
  rw [← hdata] at hp
  obtain ⟨v, w, -, hw, hget⟩ :=
    (Action.passes_of_validate hinputs).accepted p (Ports.mem_data_iff.1 hp).1
  exact ⟨w, hget, hidempotent p hp v w hw⟩

/-- If the names are right, the target accepts what is handed over. -/
theorem exists_validate_of_named (ht : target.inlets.ContextUnique)
    (hnamed : target.Named .inward (ev.inject target validated)) :
    ∃ handed, target.validate .inward (ev.inject target validated) = .ok handed := by
  refine Action.exists_validate_iff.2 ⟨hnamed, fun q hq => ?_⟩
  rcases hc : q.type.isContext with - | -
  · obtain ⟨v, hv, hvalidate⟩ :=
      validate_of_mem_data hdata hidempotent hinputs (Ports.mem_data_iff.2 ⟨hq, hc⟩)
    exact ⟨v, v, (get?_inject_of_mem_data (Ports.mem_data_iff.2 ⟨hq, hc⟩)).trans hv, hvalidate⟩
  · obtain ⟨port, hport, hname⟩ :=
      Action.exists_contextInlet?_of_namesContext ht ⟨q, hq, hc, rfl⟩
    exact ⟨.context ev.context, .context ev.context, hname ▸ get?_inject hport,
      q.type.validate_context hc ev.context⟩

/-- What the target accepts has the data that was handed over. -/
theorem get?_of_mem_data (hp : p ∈ target.inlets.data)
    (hhanded : target.validate .inward (ev.inject target validated) = .ok handed) :
    handed.get? p.name = validated.get? p.name := by
  obtain ⟨v, hv, hvalidate⟩ := validate_of_mem_data hdata hidempotent hinputs hp
  obtain ⟨v', w, hv', hw, hget⟩ :=
    (Action.passes_of_validate hhanded).accepted p (Ports.mem_data_iff.1 hp).1
  rw [get?_inject_of_mem_data hp, hv] at hv'
  obtain rfl := Option.some.inj hv'
  rw [hget, hv, Except.ok.inj (hw.symm.trans hvalidate)]

end

/-- If the target refuses what is handed over, that is what the delegating action fails with. -/
theorem returns_of_target_refuses {e : Error} (hplain : a.graph = none)
    (hs : ev.chooseStrategy a = .ok s) (htarget : s.target = .action target)
    (hinputs : a.validate .inward (ev.inject a inputs) = .ok validated)
    (hrefused : target.validate .inward (ev.inject target validated) = .error e) :
    ev.Returns a inputs (.error e) := by
  refine returns_of_evaluateAction (n := 2) (d := 0)
    (ev.evaluateAction_eq_error_iff.2 (.inr ⟨validated, hinputs, .inl ?_⟩))
  rw [result_compute_of_target hplain hs htarget]
  exact ev.evaluateAction_eq_error_iff.2 (.inl hrefused)

end Evaluator

/-- A plain action that delegates has its target visited with its validated inputs, its context
    inlet included. If both have the same data inlets, of idempotent types, and one context inlet
    at most, the target accepts these inputs exactly if it has a context inlet of every name that
    the action has one of; it then has the same data and its own context. Otherwise the evaluation
    fails with the name of the context inlet as the only one that the target does not expect, and
    with no name missing. -/
theorem delegation_counts_context {ev : Evaluator} {a target : Action} {s : Strategy}
    (hplain : a.graph = none) (hs : ev.chooseStrategy a = .ok s)
    (htarget : s.target = .action target) (hdata : a.inlets.data = target.inlets.data)
    (hidempotent : ∀ p ∈ a.inlets.data, p.type.Idempotent) (ha : a.inlets.ContextUnique)
    (ht : target.inlets.ContextUnique) {inputs validated : Record}
    (hinputs : a.validate .inward (ev.inject a inputs) = .ok validated) :
    let given := ev.inject target validated
    (∀ n, ev.Visits (n + 2) ⟨.caller, 0, a, inputs⟩ ⟨.delegation, 1, target, validated⟩) ∧
    ((∃ handed, target.validate .inward given = .ok handed) ↔
      ∀ name, a.inlets.NamesContext name → target.inlets.NamesContext name) ∧
    (∀ handed, target.validate .inward given = .ok handed →
      (∀ p ∈ target.inlets.data, handed.get? p.name = validated.get? p.name) ∧
        ∀ name, target.inlets.NamesContext name →
          handed.get? name = some (.context ev.context)) ∧
    ∀ name, a.inlets.NamesContext name → ¬target.inlets.NamesContext name →
      target.validate .inward given =
          .error (.mismatchedKeys target.code .inward [name] []) ∧
        ev.Returns a inputs (.error (.mismatchedKeys target.code .inward [name] [])) := by
  have hkeys : validated.keys = a.inlets.names := Action.keys_of_validate hinputs
  refine ⟨fun n => .nested hinputs (.delegation hplain hs htarget) .self,
    ⟨fun h => ?_, fun h => ?_⟩, fun handed hhanded => ⟨fun p hp => ?_, ?_⟩,
    fun name hname hnot => ?_⟩
  · exact (Evaluator.named_inject_iff hdata ht hkeys).1 (Action.exists_validate_iff.1 h).1
  · exact Evaluator.exists_validate_of_named hdata hidempotent hinputs ht
      ((Evaluator.named_inject_iff hdata ht hkeys).2 h)
  · exact Evaluator.get?_of_mem_data hdata hidempotent hinputs hp hhanded
  · rintro name ⟨q, hq, hc, rfl⟩
    exact Evaluator.get?_of_validate hhanded hq hc fun r hr hr' => ht q hq r hr hc hr'
  · have hrefused : target.validate .inward (ev.inject target validated) =
        .error (.mismatchedKeys target.code .inward [name] []) :=
      Evaluator.validate_inject_of_not_namesContext hdata ht hkeys ha hname hnot
    exact ⟨hrefused, Evaluator.returns_of_target_refuses hplain hs htarget hinputs hrefused⟩

namespace Relay

/-- An action that takes the context beside the argument of the echo. -/
def aware : Action where
  code := "Aware"
  inlets := ⟨[⟨"ctx", .context⟩, ⟨"a", .any⟩], by decide⟩
  outlets := echo.outlets
  graph := none

/-- Another one with the same ports. -/
def peer : Action := { aware with code := "Peer" }

/-- The commands by which that action delegates to a target. -/
def delegations (target : Action) : List Catalog.Command :=
  [.declare "Echo" echo.inlets.parameters echo.outlets.parameters,
    .declare "Aware" aware.inlets.parameters aware.outlets.parameters,
    .implement echo engine pass, .delegate aware engine target]

/-- The evaluator after these commands. -/
def awareEvaluator (target : Action) : Evaluator :=
  ⟨(∅ : Catalog).after (delegations target), .default, .ofSettings 0 []⟩

/-- What the action hands over. -/
def handedOver : Record :=
  .ofList [("ctx", .context (.ofSettings 0 [])), ("a", .json (.bool true))]

theorem contextUnique_aware : aware.inlets.ContextUnique := by
  simp [Ports.ContextUnique, aware, ValueType.isContext, ValueType.any]

theorem idempotent_aware : aware.inlets.Idempotent := by
  intro p hp
  rcases List.mem_cons.1 hp with rfl | hp
  · exact ValueType.idempotent_context
  · rw [List.mem_singleton.1 hp]
    exact ValueType.idempotent_any

theorem idempotent_data_aware : ∀ p ∈ aware.inlets.data, p.type.Idempotent :=
  fun p hp => idempotent_aware p (Ports.mem_data_iff.1 hp).1

theorem namesContext_aware : aware.inlets.NamesContext "ctx" :=
  ⟨⟨"ctx", .context⟩, List.mem_cons_self, rfl, rfl⟩

theorem not_namesContext_echo (name : String) : ¬echo.inlets.NamesContext name := by
  rintro ⟨p, hp, hc, -⟩
  obtain rfl := List.mem_singleton.1 hp
  cases hc

end Relay

/-- The echo refuses the context of the action that delegates to it; an action with a context inlet
    of the same name takes it, and the data with it. -/
theorem delegation_counts_context_aware :
    (Relay.awareEvaluator Relay.echo).chooseStrategy Relay.aware =
        .ok ⟨Relay.aware, Relay.engine, .action Relay.echo⟩ ∧
      (Relay.awareEvaluator Relay.echo).Returns Relay.aware (Relay.single "a" (.bool true))
        (.error (.mismatchedKeys "Echo" .inward ["ctx"] [])) ∧
      ∃ handed, Relay.peer.validate .inward
          ((Relay.awareEvaluator Relay.peer).inject Relay.peer Relay.handedOver) = .ok handed ∧
        handed.get? "a" = some (.json (.bool true)) := by
  have hecho := @delegation_counts_context (Relay.awareEvaluator Relay.echo) Relay.aware Relay.echo
    ⟨Relay.aware, Relay.engine, .action Relay.echo⟩ rfl rfl rfl rfl
    Relay.idempotent_data_aware Relay.contextUnique_aware
    (fun p hp _ _ hc => absurd ⟨p, hp, hc, rfl⟩ (Relay.not_namesContext_echo p.name))
    (Relay.single "a" (.bool true)) Relay.handedOver rfl
  have hpeer := @delegation_counts_context (Relay.awareEvaluator Relay.peer) Relay.aware Relay.peer
    ⟨Relay.aware, Relay.engine, .action Relay.peer⟩ rfl rfl rfl rfl
    Relay.idempotent_data_aware Relay.contextUnique_aware Relay.contextUnique_aware
    (Relay.single "a" (.bool true)) Relay.handedOver rfl
  obtain ⟨-, -, -, hrefused⟩ := hecho
  obtain ⟨-, haccepts, hvalues, -⟩ := hpeer
  obtain ⟨handed, hhanded⟩ := haccepts.2 fun _ hname => hname
  refine ⟨rfl, (hrefused "ctx" Relay.namesContext_aware (Relay.not_namesContext_echo _)).2,
    handed, hhanded, ?_⟩
  exact (hvalues handed hhanded).1 ⟨"a", .any⟩ List.mem_cons_self

/-- It is not so that between actions with the same data inlets the target never refuses the names
    of what is handed over. The echo returns what a caller gives it, but if the action that takes
    the context beside the argument of the echo delegates to it, the same inputs fail. -/
theorem not_accepted_by_target :
    (Relay.awareEvaluator Relay.echo).Returns Relay.echo (Relay.single "a" (.bool true))
        (.ok (Relay.single "res" (.bool true))) ∧
      ¬∀ (ev : Evaluator) (a target : Action) (s : Strategy), a.graph = none →
        ev.chooseStrategy a = .ok s → s.target = .action target →
        a.inlets.data = target.inlets.data → a.inlets.Idempotent → target.inlets.Idempotent →
        a.inlets.ContextUnique → target.inlets.ContextUnique → ∀ inputs validated,
          a.validate .inward (ev.inject a inputs) = .ok validated →
          ∀ unexpected missing, target.validate .inward (ev.inject target validated) =
              .error (.mismatchedKeys target.code .inward unexpected missing) →
            ¬ev.Returns a inputs
              (.error (.mismatchedKeys target.code .inward unexpected missing)) := by
  refine ⟨⟨1, rfl⟩, fun h => ?_⟩
  have hreturns : (Relay.awareEvaluator Relay.echo).Returns Relay.aware
      (Relay.single "a" (.bool true)) (.error (.mismatchedKeys "Echo" .inward ["ctx"] [])) :=
    ⟨2, rfl⟩
  exact h (Relay.awareEvaluator Relay.echo) Relay.aware Relay.echo
    ⟨Relay.aware, Relay.engine, .action Relay.echo⟩ rfl rfl rfl rfl Relay.idempotent_aware
    Relay.idempotent_inlets Relay.contextUnique_aware
    (fun p hp _ _ hc => absurd ⟨p, hp, hc, rfl⟩ (Relay.not_namesContext_echo p.name))
    (Relay.single "a" (.bool true)) Relay.handedOver rfl ["ctx"] [] rfl hreturns

end Dataflow
