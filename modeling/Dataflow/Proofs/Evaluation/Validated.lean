import Dataflow.Proofs.Evaluation.Rewiring

/-!
# What passes through ports

Values get to a host function in many ways: from a caller, through binds, as literals and from
an action that delegates; and they leave it in as many. All of them pass through the ports of
the action that is evaluated. A body is called with the validated inputs of its visit, and only
if its signature has their names, whatever action its strategy was registered for
(`Evaluator.CallsBody.passes`); for other arguments it is never run, so that it may as well be
another one there (`Evaluator.evaluate_of_resembles`). What an evaluation returns is validated
last (`Evaluator.exists_passes_of_evaluateAction`).
-/

namespace Dataflow

/-- A host function accepts the arguments whose names are those of its signature. -/
theorem Callable.accepts_iff {c : Callable} {args : Record} :
    c.accepts args = true ↔ ∀ name, name ∈ c.signature ↔ name ∈ args.keys := by
  rw [accepts, Bool.and_eq_true, List.all_eq_true, List.all_eq_true]
  simp only [decide_eq_true_eq]
  constructor
  · exact fun h name => ⟨h.1 name, h.2 name⟩
  · exact fun h => ⟨fun name => (h name).1, fun name => (h name).2⟩

namespace Evaluator

variable {ev : Evaluator} {n d : Nat} {a : Action} {inputs outputs args validated : Record}
  {v : Visit} {s : Strategy} {c : Callable}

/-- The arguments of a body passed through the inlets of the action that is visited, whose names
    are those of the signature. -/
theorem CallsBody.passes (h : ev.CallsBody v s c args) :
    v.action.Passes .inward (ev.inject v.action v.inputs) args ∧
      ∀ name, name ∈ c.signature ↔ name ∈ v.action.inlets.names := by
  have hpasses := Action.passes_of_validate h.validated
  refine ⟨hpasses, fun name => ?_⟩
  rw [Callable.accepts_iff.1 h.accepts name, hpasses.keys]
  rfl

/-- A host function whose signature has other names than the inlets is refused. -/
theorem result_evaluateAction_of_mismatch (hplain : a.graph = none)
    (hvalidated : a.validate .inward (ev.inject a inputs) = .ok validated)
    (hs : ev.chooseStrategy a = .ok s) (hc : s.target = .callable c)
    (hnames : ¬∀ name, name ∈ c.signature ↔ name ∈ a.inlets.names) :
    (ev.evaluateAction (n + 1) d a inputs).result =
      .error (.failed (.signatureMismatch s.action.code s.engine c.signature a.inlets.names)) := by
  have hkeys : validated.keys = a.inlets.names := Action.keys_of_validate hvalidated
  have hrefused : ¬c.accepts validated = true := by
    rw [Callable.accepts_iff, hkeys]
    exact hnames
  refine ev.evaluateAction_eq_error_iff.2 (.inr ⟨validated, hvalidated, .inl ?_⟩)
  rw [result_compute_of_call hplain hs hc, Strategy.call, hc]
  dsimp only
  rw [if_neg hrefused, hkeys]
  rfl

/-- What an evaluation returns passed through the outlets of its action. -/
theorem exists_passes_of_evaluateAction
    (h : (ev.evaluateAction n d a inputs).result = .ok outputs) :
    ∃ results, a.Passes .outward results outputs := by
  cases n with
  | zero => cases h
  | succ n =>
    obtain ⟨_, -, results, -, hvalidate⟩ := ev.evaluateAction_eq_ok_iff.1 h
    exact ⟨results, Action.passes_of_validate hvalidate⟩

end Evaluator

/-- No value crosses a port without being validated. When a visit of an evaluation calls a body, the
    arguments passed through the inlets of its action, whose names are those of the signature; for
    no other arguments is a body run, so that the evaluation is the same if all bodies differ there.
    A host function whose signature has other names than the inlets is not called, and its action
    fails. Whatever succeeds, be it an action on its own, a step or what a strategy delegates to,
    returns what passed through the outlets of its action. -/
theorem values_are_validated (ev : Evaluator) (a : Action) (inputs : Record) :
    (∀ limit v s c args, ev.Visits limit ⟨.caller, 0, a, inputs⟩ v → ev.CallsBody v s c args →
      v.action.Passes .inward (ev.inject v.action v.inputs) args ∧
        ∀ name, name ∈ c.signature ↔ name ∈ v.action.inlets.names) ∧
    (∀ limit catalog, ev.catalog.Resembles (fun code s args => ∃ v c,
        ev.Visits limit ⟨.caller, 0, a, inputs⟩ v ∧ v.action.code = code ∧
          ev.CallsBody v s c args) catalog →
      (Evaluator.mk catalog ev.config ev.context).evaluate limit a inputs =
        ev.evaluate limit a inputs) ∧
    (∀ v s c, v.action.graph = none → ev.chooseStrategy v.action = .ok s →
      s.target = .callable c → (¬∀ name, name ∈ c.signature ↔ name ∈ v.action.inlets.names) →
        (∀ args, ¬ev.CallsBody v s c args) ∧
        ∀ validated, v.action.validate .inward (ev.inject v.action v.inputs) = .ok validated →
          ∀ n, (ev.evaluateAction (n + 1) v.depth v.action v.inputs).result =
            .error (.failed (.signatureMismatch s.action.code s.engine c.signature
              v.action.inlets.names))) ∧
    (∀ n d b args outputs, (ev.evaluateAction n d b args).result = .ok outputs →
      ∃ results, b.Passes .outward results outputs) ∧
    ∀ limit outputs, (ev.evaluate limit a inputs).result = .ok outputs →
      ∃ results, a.Passes .outward results outputs := by
  refine ⟨fun limit v s c args _ h => h.passes, fun limit catalog hcatalog => ?_,
    fun v s c hplain hs hc hnames => ⟨fun args h => hnames h.passes.2, fun validated hvalidated n =>
      Evaluator.result_evaluateAction_of_mismatch hplain hvalidated hs hc hnames⟩,
    fun n d b args outputs => Evaluator.exists_passes_of_evaluateAction,
    fun limit outputs h => ?_⟩
  · exact Evaluator.evaluate_of_resembles ⟨hcatalog, rfl, rfl⟩ (.refl a)
      fun v hv s c args h => ⟨v, c, hv, rfl, h⟩
  · rw [ev.evaluate_result] at h
    exact Evaluator.exists_passes_of_evaluateAction h

namespace Relay

/-- An action with the code of the echo and another inlet. -/
def stranger : Action where
  code := "Echo"
  inlets := ⟨[⟨"x", .any⟩], List.nodup_singleton _⟩
  outlets := ⟨[⟨"res", .any⟩], List.nodup_singleton _⟩
  graph := none

/-- A catalog of two strategies for the code of the echo, both registered for the stranger. The
    signature of the first has the inlets of the echo. -/
def strangerCatalog (first : Callable) : Catalog where
  actions := ∅
  algorithms := ∅
  implementations := ⟨.ofList [("Echo", .ofList [(engine, ⟨stranger, engine, .callable first⟩),
    (spare, ⟨stranger, spare, .callable ⟨["x"], pass.body⟩⟩)])]⟩

/-- The evaluator of that catalog, in a context with these settings. -/
def strangerEvaluator (first : Callable) (settings : List (String × Json)) : Evaluator :=
  ⟨strangerCatalog first, .default, .ofSettings 0 settings⟩

/-- Passes on nothing but the truth. -/
def passTrue : Callable where
  signature := ["a"]
  body args :=
    match args.get? "a" with
    | some (.json (.bool true)) => pass.body args
    | _ => .error ⟨"not true"⟩

theorem resembles_strangerCatalog {calls : String → Strategy → Record → Prop}
    (h : ∀ args, calls "Echo" ⟨stranger, engine, .callable pass⟩ args →
      passTrue.body args = pass.body args) :
    (strangerCatalog pass).Resembles calls (strangerCatalog passTrue) :=
  Catalog.resembles_of_single rfl rfl
    (.cons ⟨rfl, rfl, rfl, .callable rfl h⟩ (.cons ⟨rfl, Strategy.resembles_refl _ _⟩ .nil))

end Relay

/-- The echo runs the host function of a stranger, once with its only argument; it refuses the
    other one, which takes the argument by another name. -/
theorem values_are_validated_relay :
    Relay.echo.Passes .inward (Relay.single "a" (.bool true)) (Relay.single "a" (.bool true)) ∧
      (Relay.strangerEvaluator Relay.passTrue []).evaluate 1 Relay.echo
          (Relay.single "a" (.bool true)) =
        (Relay.strangerEvaluator Relay.pass []).evaluate 1 Relay.echo
          (Relay.single "a" (.bool true)) ∧
      ((Relay.strangerEvaluator Relay.pass [("engine", .string "spare")]).evaluateAction 1 0
          Relay.echo (Relay.single "a" (.bool true))).result =
        .error (.failed (.signatureMismatch "Echo" Relay.spare ["x"] ["a"])) ∧
      ∃ results, Relay.echo.Passes .outward results (Relay.single "res" (.bool true)) := by
  obtain ⟨hcalls, hcatalogs, -, -, houtputs⟩ :=
    values_are_validated (Relay.strangerEvaluator Relay.pass []) Relay.echo
      (Relay.single "a" (.bool true))
  obtain ⟨-, -, hrefused, -⟩ :=
    values_are_validated (Relay.strangerEvaluator Relay.pass [("engine", .string "spare")])
      Relay.echo (Relay.single "a" (.bool true))
  refine ⟨(hcalls 1 _ ⟨Relay.stranger, Relay.engine, .callable Relay.pass⟩ Relay.pass _ .self
    ⟨rfl, rfl, rfl, rfl, rfl⟩).1, ?_, ?_, houtputs 1 _ rfl⟩
  · refine hcatalogs 1 _ (Relay.resembles_strangerCatalog fun args hargs => ?_)
    obtain ⟨v, c, hv, -, hcall⟩ := hargs
    obtain rfl := hv.eq_of_one
    obtain rfl : Relay.single "a" (.bool true) = args := Except.ok.inj hcall.validated
    rfl
  · refine (hrefused ⟨.caller, 0, Relay.echo, Relay.single "a" (.bool true)⟩ _ _ rfl rfl rfl
      fun h => ?_).2 _ rfl 0
    exact absurd ((h "x").1 List.mem_cons_self) (by decide)

end Dataflow
