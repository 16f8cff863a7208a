import Dataflow.Proofs.Catalog.History
import Dataflow.Proofs.Evaluation.Composition

/-!
# Errors of evaluations

Where the error of an evaluation comes from. Each action that is evaluated may have an error
of its own ports, strategy or host function (`Error.OfAction`), or it is an algorithm one of
whose steps reads something late (`Action.LateError`); otherwise the error is that of an
action that it calls. So the error of an evaluation, whatever the depth at which it arises,
is one of these two kinds, for an action that the evaluated one reaches
(`Evaluator.Returns.error_cases`).
-/

namespace Dataflow

/-- The errors of an action itself: of what passes through its ports, of its strategy and of
    its host function. -/
def Error.OfAction : Error → Prop
  | mismatchedKeys .. | invalidType .. | unexpected .. | noImplementation .. | unknownEngine ..
  | signatureMismatch .. | executionFailed .. | resultCountMismatch .. => True
  | _ => False

/-- The errors of an algorithm that is not in order: an outlet that an inlet of a step reads
    has no value yet. -/
inductive Action.LateError (a : Action) : Error → Prop
  | intro {g : Graph} {s : Step} {i : Nat} {port : StepPort} (hg : a.graph = some g)
    (hs : s ∈ g.steps) (hlate : g.ReadsLate s i port) :
    LateError a (.missingValue a.code (g.describeSource a (.stepOutlet port)))

namespace Action

variable {a : Action} {direction : Direction} {values : Record} {e : Error}

theorem ofAction_of_validate (h : a.validate direction values = .error e) : e.OfAction := by
  rcases error_of_validate h with h | ⟨p, -, v, -, h⟩
  · obtain ⟨_, _, rfl⟩ := error_of_checkNames h
    trivial
  · rw [coerce] at h
    split at h
    · cases h
    · exact Except.error.inj h ▸ trivial
    · exact Except.error.inj h ▸ trivial

end Action

namespace Strategy

variable {s : Strategy} {c : Callable} {args : Record} {e : Error}

theorem ofAction_of_call (hs : s.target = .callable c) (h : s.call args = .error e) :
    e.OfAction := by
  rw [call, hs] at h
  dsimp only at h
  split at h
  · split at h
    · cases h
    · exact Except.error.inj h ▸ trivial
  · exact Except.error.inj h ▸ trivial

end Strategy

theorem Returned.ofAction_of_toOutputs {returned : Returned} {a : Action} {e : Error}
    (h : returned.toOutputs a = .error e) : e.OfAction := by
  have hpositional (vs : List Value) (h : (if vs.length = a.outlets.size then
      Except.ok (OrderedMap.ofList (a.outlets.names.zip vs))
      else .error (.resultCountMismatch a.code a.outlets.size vs.length)) = .error e) :
      e.OfAction := by
    split at h
    · cases h
    · exact Except.error.inj h ▸ trivial
  rw [toOutputs] at h
  split at h
  · cases h
  · cases returned with
    | nothing => exact hpositional [] h
    | single v => exact hpositional [v] h
    | sequence vs => exact hpositional vs h
    | named r => cases h

namespace Evaluator

variable (ev : Evaluator) {a : Action} {inputs : Record} {e : Error} {n d : Nat}

theorem ofAction_of_chooseStrategy (h : ev.chooseStrategy a = .error e) : e.OfAction := by
  have hchoice := ofChoice_of_chooseStrategy h
  cases e <;> trivial

/-- A plain action fails with an error of its own or with that of an action that it
    delegates to. -/
theorem error_of_dispatch {nested : Nested} (hplain : a.graph = none)
    (h : (ev.dispatch nested d a inputs).result = .error (.failed e)) :
    e.OfAction ∨
      ∃ b args, ev.catalog.Calls a b ∧ (nested b args).result = .error (.failed e) := by
  simp only [dispatch, Run.result_bind, Except.bind_eq_error, expect_eq_error, expect_eq_ok,
    Halt.failed.injEq, exists_eq_right', Run.result_log] at h
  rcases h with h | ⟨s, hs, h | ⟨_, -, h⟩⟩
  · exact .inl (ev.ofAction_of_chooseStrategy h)
  · cases h
  · rcases htarget : s.target with c | target
    · rw [htarget] at h
      simp only [Run.result_bind, Except.bind_eq_error, expect_eq_error, expect_eq_ok,
        Halt.failed.injEq, exists_eq_right'] at h
      rcases h with h | ⟨returned, -, h⟩
      · exact .inl (Strategy.ofAction_of_call htarget h)
      · exact .inl (Returned.ofAction_of_toOutputs h)
    · rw [htarget] at h
      exact .inr ⟨target, inputs,
        .delegate hplain (mem_strategies_of_chosen? (chooseStrategy_eq_ok_iff.1 hs)) htarget, h⟩

/-- The error of an evaluation is one of the action, a late read, or that of an action that
    is called. -/
theorem error_cases (hwf : ∀ g, a.graph = some g → g.WellFormed a)
    (h : (ev.evaluateAction (n + 1) d a inputs).result = .error (.failed e)) :
    e.OfAction ∨ a.LateError e ∨ ∃ b args, ev.catalog.Calls a b ∧
      (ev.evaluateAction n (d + 1) b args).result = .error (.failed e) := by
  rcases ev.evaluateAction_eq_error_iff.1 h with h | ⟨validated, hinputs, h | ⟨_, -, h⟩⟩
  · exact .inl (Action.ofAction_of_validate h)
  · rcases hg : a.graph with - | g
    · rw [compute, hg] at h
      exact (ev.error_of_dispatch hg h).imp_right .inr
    · rw [ev.compute_of_graph hg] at h
      obtain ⟨k, hends⟩ := (ev.evaluateGraph_eq_error_iff (hwf g hg)
        (Action.keys_of_validate hinputs) (ev.namesOutlets_evaluateAction n (d + 1))).1 h
      cases hends with
      | nested hs _ _ _ hhalt =>
        exact .inr (.inr ⟨_, _, .step hg (List.mem_of_getElem? hs), hhalt⟩)
      | late hs _ _ hlate _ => exact .inr (.inl ⟨hg, List.mem_of_getElem? hs, hlate⟩)
  · exact .inl (Action.ofAction_of_validate h)

variable {ev}

/-- The error of an evaluation is one of an action that is reached, or a late read of an
    algorithm that is reached. -/
theorem Returns.error_cases
    (hwf : ∀ b g, ev.catalog.Reaches a b → b.graph = some g → g.WellFormed b)
    (h : ev.Returns a inputs (.error e)) :
    e.OfAction ∨ ∃ b, ev.catalog.Reaches a b ∧ b.LateError e := by
  obtain ⟨n, hn⟩ := h.eventually
  have herror : (ev.evaluateAction n 0 a inputs).result = .error (.failed e) :=
    hn n (Nat.le_refl n) 0
  clear hn h
  generalize 0 = d at herror
  -- By induction on the level, for every action, as nested evaluations have a level less.
  induction n generalizing a inputs d with
  | zero => cases herror
  | succ n ih =>
    rcases ev.error_cases (fun g hg => hwf a g .refl hg) herror with
      h | h | ⟨b, args, hcalls, h⟩
    · exact .inl h
    · exact .inr ⟨a, .refl, h⟩
    · -- What the called action reaches, the caller reaches.
      rcases ih (fun b' g hb' hg => hwf b' g (hb'.head hcalls) hg) (d + 1) h with
        h | ⟨b', hb', h⟩
      · exact .inl h
      · exact .inr ⟨b', hb'.head hcalls, h⟩

end Evaluator

theorem Action.LateError.exists_missingValue {a : Action} {e : Error} (h : a.LateError e) :
    ∃ algorithm port, e = .missingValue algorithm port := by
  cases h
  exact ⟨_, _, rfl⟩

/-- A late read is not reported as a missing outlet of an algorithm. -/
theorem Action.LateError.ne_describeDestination {a b : Action} {e : Error} (h : a.LateError e)
    (hwf : ∀ g, a.graph = some g → g.WellFormed a) (g : Graph) (i : Nat) :
    e ≠ .missingValue b.code (g.describeDestination b (.outlet i)) := by
  intro he
  obtain ⟨hg, -, ⟨-, hsource, -⟩⟩ := h
  have hconsistent := (hwf _ hg).toConsistent
  have hnames := hconsistent.describeSource (hconsistent.hasSource_of_sourceOf? hsource)
  exact hnames.ne_describePort b .outward i (Error.missingValue.inj he).2

/-- An action that there is, evaluated with a catalog that registrations filled, fails with
    an error of the action or of one that it calls, or for a value that is not there yet.
    What a build checks is never found wrong by an evaluation: no inlet lacks a source, no
    port is unknown, no strategy that delegates is called, and no outlet of an algorithm
    lacks a source. -/
theorem error_of_obtained {a : Action} (ha : a.Obtained) {ev : Evaluator}
    (hc : ev.catalog.Reached) {inputs : Record} {e : Error}
    (h : ev.Returns a inputs (.error e)) :
    (e.OfAction ∨ ∃ algorithm port, e = .missingValue algorithm port) ∧
      (∀ algorithm step action inlet, e ≠ .unboundInlet algorithm step action inlet) ∧
      (∀ owner direction key, e ≠ .unknownPort owner direction key) ∧
      (∀ action engine target, e ≠ .notCallable action engine target) ∧
      ∀ (b : Action) (g : Graph) i,
        e ≠ .missingValue b.code (g.describeDestination b (.outlet i)) := by
  have hwf (b : Action) (g : Graph) (hb : ev.catalog.Reaches a b) (hg : b.graph = some g) :
      g.WellFormed b := (ha.of_reaches hc hb).wellFormed hg
  have hcases := h.error_cases hwf
  have hkinds : e.OfAction ∨ ∃ algorithm port, e = .missingValue algorithm port := by
    rcases hcases with hown | ⟨b, -, hlate⟩
    · exact .inl hown
    · exact .inr hlate.exists_missingValue
  have hother (e' : Error)
      (he' : ¬(e'.OfAction ∨ ∃ algorithm port, e' = .missingValue algorithm port)) : e ≠ e' :=
    fun heq => he' (heq ▸ hkinds)
  refine ⟨hkinds, fun _ _ _ _ => hother _ (by simp [Error.OfAction]),
    fun _ _ _ => hother _ (by simp [Error.OfAction]),
    fun _ _ _ => hother _ (by simp [Error.OfAction]), fun b g i => ?_⟩
  rcases hcases with hown | ⟨b', hb', hlate⟩
  · rintro rfl
    exact hown
  · exact hlate.ne_describeDestination (fun g hg => hwf b' g hb' hg) g i

/-! ## The relay, with a strategy that leads back to it -/

namespace Relay

/-- What the declaration of an echo and of a join, the build of the relay and the
    registrations of strategies leave: echoes are computed, joins are delegated to the
    relay. -/
def history : Catalog :=
  let c := (Catalog.declare "Echo" [⟨"a", .any⟩] [⟨"res", .any⟩] ∅).2
  let c := (Catalog.declare "Join" join.inlets.parameters [⟨"res", .any⟩] c).2
  let c := (Catalog.build 0 "Relay" [⟨"a", .any⟩] [⟨"res", .any⟩] builder c).2
  let c := (Catalog.implement echo engine pass c).2
  (Catalog.delegate join engine relay c).2

theorem obtained_echo : echo.Obtained :=
  @Action.Obtained.declared ∅ "Echo" [⟨"a", .any⟩] [⟨"res", .any⟩] echo rfl

theorem obtained_join : join.Obtained :=
  @Action.Obtained.declared ∅ "Join" join.inlets.parameters [⟨"res", .any⟩] join rfl

theorem obtained : relay.Obtained := by
  refine .built built fun g hg s hs => ?_
  cases hg
  rcases List.mem_cons.1 hs with rfl | hs
  · exact obtained_echo
  · rw [List.mem_singleton.1 hs]
    exact obtained_join

theorem reached : history.Reached := by
  refine .delegate (.implement (.build ?_ _ _ _ _ _) _ _ _) _ _ obtained
  exact .declare (.declare .empty _ _ _) _ _ _

/-- The evaluator with that catalog. -/
def circular : Evaluator := ⟨history, .default, .ofSettings 0 []⟩

/-- What the join passes on has not the names of the inlets of the relay. -/
def mismatch : Error := .mismatchedKeys "Relay" .inward ["context", "left", "right"] ["a"]

theorem returns_mismatch : circular.Returns relay (single "a" .null) (.error mismatch) :=
  ⟨3, rfl⟩

end Relay

/-- The error of the relay that the join leads back to is one of an action. -/
theorem error_of_obtained_relay :
    Relay.relay.Obtained ∧ Relay.circular.catalog.Reached ∧
      Relay.circular.Returns Relay.relay (Relay.single "a" .null) (.error Relay.mismatch) ∧
      (Relay.mismatch.OfAction ∨
        ∃ algorithm port, Relay.mismatch = .missingValue algorithm port) ∧
      ∀ (b : Action) (g : Graph) i,
        Relay.mismatch ≠ .missingValue b.code (g.describeDestination b (.outlet i)) := by
  obtain ⟨hkinds, -, -, -, houtlets⟩ :=
    error_of_obtained Relay.obtained Relay.reached Relay.returns_mismatch
  exact ⟨Relay.obtained, Relay.reached, Relay.returns_mismatch, hkinds, houtlets⟩

end Dataflow
