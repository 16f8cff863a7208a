import Dataflow.Proofs.Evaluation.Delegation
import Dataflow.Proofs.Evaluation.Validated

/-!
# The builtin types

A value is validated at every port that it crosses: as an input and as an output, and again where an
action delegates to another one or is placed in an algorithm. The builtin types let what they
returned through as it is, so that it does not matter how many such ports there are. The numeric
type returns numbers only (`ValueType.exists_number_of_validate`), and the arguments of a host
function are what the types of the inlets returned; so a host function can read the argument of a
numeric inlet as a number (`Evaluator.CallsBody.readsNumbers`).
-/

namespace Dataflow

/-- The types that come with the library. -/
def ValueType.builtin : List ValueType := [any, numeric, string, context]

/-- The types of all ports are builtin. -/
def Ports.Builtin (ports : Ports) : Prop := ∀ p ∈ ports.parameters, p.type ∈ ValueType.builtin

theorem Ports.Builtin.idempotent {ports : Ports} (h : ports.Builtin) : ports.Idempotent :=
  fun p hp => ValueType.idempotent_of_builtin (h p hp)

theorem Record.number_of_get? {r : Record} {name : String} {n : Number}
    (h : r.get? name = some (.json (.number n))) : r.number name = .ok n.toFloat := by
  rw [number, valueAs, value, h]
  rfl

/-- The values of numeric ports can be read as numbers. -/
def Ports.ReadsNumbers (ports : Ports) (values : Record) : Prop :=
  ∀ p ∈ ports.parameters, p.type = .numeric → ∃ x, values.number p.name = .ok x

/-- The arguments of numeric inlets are numbers. -/
theorem Evaluator.CallsBody.readsNumbers {ev : Evaluator} {v : Visit} {s : Strategy} {c : Callable}
    {args : Record} (h : ev.CallsBody v s c args) : v.action.inlets.ReadsNumbers args := by
  intro p hp ht
  obtain ⟨given, w, -, hw, hget⟩ := h.passes.1.accepted p hp
  rw [ht] at hw
  obtain ⟨n, rfl, -⟩ := ValueType.exists_number_of_validate hw
  exact ⟨n.toFloat, Record.number_of_get? hget⟩

/-- A builtin type accepts what it returned, and returns it as it is; and what the numeric type
    returns is a number, which is finite unless it is the value that was given. So a record that
    passed through ports of builtin types passes through them again as it is, names, order and
    values; the outputs of an evaluation pass through the outlets of its action again if these have
    builtin types; and a host function that an evaluation calls can read the argument of every
    numeric inlet as a number. What it returns is what the visit comes to that calls it, and where
    it could not read a number no body is called, so that the evaluation is the same if all bodies
    differ there. -/
theorem builtin_types_are_stable :
    (∀ t ∈ ValueType.builtin, ∀ v w, t.validate v = .ok w → t.validate w = .ok w) ∧
    (∀ v w, ValueType.numeric.validate v = .ok w →
      ∃ n : Number, w = .json (.number n) ∧ (v = w ∨ n.IsFinite)) ∧
    (∀ (a : Action) direction, (a.ports direction).Builtin → ∀ values validated,
      a.validate direction values = .ok validated →
        a.validate direction validated = .ok validated) ∧
    (∀ (ev : Evaluator) (a : Action), a.outlets.Builtin → ∀ limit inputs outputs,
      (ev.evaluate limit a inputs).result = .ok outputs →
        a.validate .outward outputs = .ok outputs) ∧
    (∀ (ev : Evaluator) v s c args, ev.CallsBody v s c args →
      v.action.inlets.ReadsNumbers args ∧
        ∀ n, (ev.evaluateAction (n + 1) v.depth v.action v.inputs).result =
          (v.outputs s c args).mapError .failed) ∧
    ∀ (ev : Evaluator) (a : Action) inputs limit catalog,
      ev.catalog.Resembles (fun code s args => ∃ v c,
        ev.Visits limit ⟨.caller, 0, a, inputs⟩ v ∧ v.action.code = code ∧
          ev.CallsBody v s c args ∧ v.action.inlets.ReadsNumbers args) catalog →
      (Evaluator.mk catalog ev.config ev.context).evaluate limit a inputs =
        ev.evaluate limit a inputs := by
  refine ⟨fun t ht => ValueType.idempotent_of_builtin ht,
    fun v w => ValueType.exists_number_of_validate,
    fun a direction hbuiltin values validated => Action.validate_of_validate hbuiltin.idempotent,
    fun ev a hbuiltin limit inputs outputs h => ?_,
    fun ev v s c args h => ⟨h.readsNumbers, h.result_evaluateAction⟩,
    fun ev a inputs limit catalog hcatalog => ?_⟩
  · rw [ev.evaluate_result] at h
    exact Evaluator.validate_of_evaluateAction hbuiltin.idempotent h
  · exact Evaluator.evaluate_of_resembles ⟨hcatalog, rfl, rfl⟩ (.refl a)
      fun v hv s c args h => ⟨v, c, hv, rfl, h, h.readsNumbers⟩

namespace Relay

/-- An action with an inlet of every builtin type. -/
def gauge : Action where
  code := "Gauge"
  inlets := ⟨[⟨"x", .numeric⟩, ⟨"unit", .string⟩, ⟨"note", .any⟩, .context], by decide⟩
  outlets := ⟨[⟨"res", .numeric⟩], List.nodup_singleton _⟩
  graph := none

theorem builtin_inlets_gauge : gauge.inlets.Builtin := by
  simp [Ports.Builtin, gauge, ValueType.builtin, Parameter.context]

theorem builtin_outlets_gauge : gauge.outlets.Builtin := by
  simp [Ports.Builtin, gauge, ValueType.builtin]

/-- Shows the number. -/
def display : Callable where
  signature := ["x", "unit", "note", "context"]
  body args := (args.number "x").toOption.elim (.error ⟨"no number"⟩) fun x =>
    .ok (.single (.ofFloat x))

/-- The evaluator with the gauge. -/
def gaugeEvaluator : Evaluator where
  catalog := ⟨∅, ∅, ⟨.ofList [("Gauge", .ofList [(engine, ⟨gauge, engine, .callable display⟩)])]⟩⟩
  config := .default
  context := .ofSettings 0 []

/-- A text for the number, a truth value for the unit, and no context. -/
def reading : Record :=
  .ofList [("note", .json .null), ("x", .json (.string " 1 ")), ("unit", .json (.bool true))]

/-- The reading as the inlets of the gauge return it. -/
def cleaned : Record :=
  .ofList [("x", .json (.number (.float 1))), ("unit", .json (.string "")), ("note", .json .null),
    ("context", .context gaugeEvaluator.context)]

/-- What the gauge calls its host function with. -/
theorem callsBody_gauge : gaugeEvaluator.CallsBody ⟨.caller, 0, gauge, reading⟩
    ⟨gauge, engine, .callable display⟩ display cleaned := ⟨rfl, rfl, rfl, rfl, rfl⟩

/-- Shows the number, or zero if there is none. -/
def displayOrZero : Callable where
  signature := display.signature
  body args := .ok (.single (.ofFloat ((args.number "x").toOption.getD 0)))

/-- The catalog with the other host function for the gauge. -/
def lenientCatalog : Catalog :=
  ⟨∅, ∅, ⟨.ofList [("Gauge", .ofList [(engine, ⟨gauge, engine, .callable displayOrZero⟩)])]⟩⟩

theorem body_displayOrZero {args : Record} (h : gauge.inlets.ReadsNumbers args) :
    displayOrZero.body args = display.body args := by
  obtain ⟨x, hx⟩ : ∃ x, args.number "x" = .ok x := h ⟨"x", .numeric⟩ List.mem_cons_self rfl
  rw [displayOrZero, display]
  dsimp only
  rw [hx]
  rfl

end Relay

/-- The text of a number is read once: what comes of it passes the inlets and the outlets of the
    gauge as it is, and is a number for its host function, which may as well do without one. -/
theorem builtin_types_are_stable_gauge :
    Relay.gauge.validate .inward (Relay.gaugeEvaluator.inject Relay.gauge Relay.reading) =
        .ok Relay.cleaned ∧
      Relay.gauge.validate .inward Relay.cleaned = .ok Relay.cleaned ∧
      Relay.gauge.validate .outward (.ofList [("res", .json (.number (.float 1)))]) =
        .ok (.ofList [("res", .json (.number (.float 1)))]) ∧
      (∃ x, Relay.cleaned.number "x" = .ok x) ∧
      (Relay.gaugeEvaluator.evaluateAction 1 0 Relay.gauge Relay.reading).result =
        .ok (.ofList [("res", .json (.number (.float 1)))]) ∧
      (Evaluator.mk Relay.lenientCatalog Relay.gaugeEvaluator.config
          Relay.gaugeEvaluator.context).evaluate 1 Relay.gauge Relay.reading =
        Relay.gaugeEvaluator.evaluate 1 Relay.gauge Relay.reading := by
  obtain ⟨-, -, hvalidate, hevaluate, hnumber, hbodies⟩ := builtin_types_are_stable
  have hgauge := hnumber Relay.gaugeEvaluator _ _ _ _ Relay.callsBody_gauge
  refine ⟨rfl, hvalidate Relay.gauge .inward Relay.builtin_inlets_gauge
      (Relay.gaugeEvaluator.inject Relay.gauge Relay.reading) _ rfl,
    hevaluate Relay.gaugeEvaluator Relay.gauge Relay.builtin_outlets_gauge 1 Relay.reading _ rfl,
    hgauge.1 ⟨"x", .numeric⟩ List.mem_cons_self rfl, (hgauge.2 0).trans rfl, ?_⟩
  refine hbodies _ _ _ 1 _ (Catalog.resembles_of_single rfl rfl (.cons ⟨rfl, rfl, rfl, ?_⟩ .nil))
  refine .callable rfl fun args ⟨v, c, hv, _, _, hreads⟩ => ?_
  obtain rfl := hv.eq_of_one
  exact Relay.body_displayOrZero hreads

end Dataflow
