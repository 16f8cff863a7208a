import Dataflow.Proofs.Builder.Build
import Dataflow.Proofs.Evaluation.Limit
import Dataflow.Proofs.Evaluation.Steps

/-!
# Algorithms as compositions

An algorithm that is in order is the composition of its steps. What it results in can be
told from what each step results in on its own, without a table, a depth or an order: some
assignment of values to the outlets of the steps agrees with all of them
(`returns_iff_of_inOrder`). An evaluation that fails does so with the error of the first
part that fails.

* `Evaluator.evaluateAction_eq_ok_iff` and `Evaluator.evaluateAction_eq_error_iff`: the
  stages of an evaluation.
* `Assignment.SolvesBelow.exists_level`: steps that succeed on their own do so together,
  nested deeply enough.
-/

namespace Dataflow

namespace Evaluator

variable (ev : Evaluator) {a : Action} {inputs outputs : Record} {e : Error} {n d : Nat}

/-- The evaluation of an action returns outputs. -/
def Succeeds (a : Action) (inputs outputs : Record) : Prop := ev.Returns a inputs (.ok outputs)

/-- An evaluation succeeds in three stages. -/
theorem evaluateAction_eq_ok_iff :
    (ev.evaluateAction (n + 1) d a inputs).result = .ok outputs ↔
      ∃ validated, a.validate .inward (ev.inject a inputs) = .ok validated ∧
        ∃ results, (ev.compute (ev.evaluateAction n (d + 1)) d a validated).result = .ok results ∧
          a.validate .outward results = .ok outputs := by
  rw [evaluateAction]
  simp only [Run.result_bind, Except.bind_eq_ok, expect_eq_ok]

/-- An evaluation fails at one of three stages. -/
theorem evaluateAction_eq_error_iff :
    (ev.evaluateAction (n + 1) d a inputs).result = .error (.failed e) ↔
      a.validate .inward (ev.inject a inputs) = .error e ∨
      ∃ validated, a.validate .inward (ev.inject a inputs) = .ok validated ∧
        ((ev.compute (ev.evaluateAction n (d + 1)) d a validated).result = .error (.failed e) ∨
          ∃ results,
            (ev.compute (ev.evaluateAction n (d + 1)) d a validated).result = .ok results ∧
            a.validate .outward results = .error e) := by
  rw [evaluateAction]
  simp only [Run.result_bind, Except.bind_eq_error, expect_eq_ok, expect_eq_error,
    Halt.failed.injEq, exists_eq_right']

/-- An evaluation gives the outlets of its action. -/
theorem namesOutlets_evaluateAction (n d : Nat) : NamesOutlets (ev.evaluateAction n d) := by
  intro a args outputs h
  cases n with
  | zero => cases h
  | succ n =>
    obtain ⟨_, -, _, -, hvalidate⟩ := ev.evaluateAction_eq_ok_iff.1 h
    exact Action.keys_of_validate hvalidate

theorem compute_of_graph {nested : Nested} {g : Graph} (hg : a.graph = some g) :
    ev.compute nested d a inputs = ev.evaluateGraph nested d a g inputs := by
  rw [compute, hg]

variable {ev}

/-- An evaluation that returns has a level at which it does. -/
theorem Returns.exists_succ {r : Except Error Record} (h : ev.Returns a inputs r) :
    ∃ n, (ev.evaluateAction (n + 1) 0 a inputs).result = r.mapError .failed := by
  obtain ⟨n, hn⟩ := h.eventually
  exact ⟨n, hn (n + 1) (Nat.le_succ n) 0⟩

end Evaluator

namespace Assignment

variable {σ : Assignment} {ev : Evaluator} {g : Graph} {inputs : Record} {k n d : Nat}

theorem SolvesBelow.succeeds
    (h : σ.SolvesBelow ev.context g inputs (Evaluator.Gives (ev.evaluateAction n d)) k) :
    σ.SolvesBelow ev.context g inputs ev.Succeeds k :=
  h.imp fun _ _ _ hgives => Evaluator.returns_of_evaluateAction (r := .ok _) hgives

/-- Steps that succeed on their own succeed at every level that is high enough for all of
    them. -/
theorem SolvesBelow.exists_level (h : σ.SolvesBelow ev.context g inputs ev.Succeeds k) :
    ∃ n, ∀ m, n ≤ m → ∀ d,
      σ.SolvesBelow ev.context g inputs (Evaluator.Gives (ev.evaluateAction m d)) k := by
  induction k with
  | zero => exact ⟨0, fun m _ d => solvesBelow_zero⟩
  | succ k ih =>
    obtain ⟨hbefore, hstep⟩ := solvesBelow_succ.1 h
    obtain ⟨n, hn⟩ := ih hbefore
    rcases hs : g.steps[k]? with - | s
    · refine ⟨n, fun m hm d => solvesBelow_succ.2 ⟨hn m hm d, fun t ht => ?_⟩⟩
      rw [hs] at ht
      cases ht
    · -- The greater of the level of the steps before and that of this step serves both.
      obtain ⟨args, hargs, hsucceeds⟩ := hstep s hs
      obtain ⟨l, hl⟩ := Evaluator.Returns.eventually hsucceeds
      refine ⟨max n l, fun m hm d => solvesBelow_succ.2
        ⟨hn m (Nat.le_trans (Nat.le_max_left n l) hm) d, fun t ht => ?_⟩⟩
      obtain rfl := Option.some.inj (hs.symm.trans ht)
      exact ⟨args, hargs, hl m (Nat.le_trans (Nat.le_max_right n l) hm) d⟩

end Assignment
namespace Evaluator

variable {ev : Evaluator} {A : Action} {g : Graph} {inputs outputs : Record} {e : Error}
  (hwf : g.WellFormed A) (hg : A.graph = some g)

include hwf hg

/-- An algorithm succeeds exactly if it is in order and an assignment solves its steps. -/
theorem succeeds_iff :
    ev.Succeeds A inputs outputs ↔ g.InOrder ∧
      ∃ validated, A.validate .inward (ev.inject A inputs) = .ok validated ∧
        ∃ σ : Assignment, σ.SolvesBelow ev.context g validated ev.Succeeds g.steps.length ∧
          ∃ results, σ.results? g validated A = some results ∧
            A.validate .outward results = .ok outputs := by
  constructor
  · -- What the steps give at some level they give on their own.
    intro h
    obtain ⟨n, hn⟩ := Returns.exists_succ h
    obtain ⟨validated, hinputs, results, hcompute, houtputs⟩ := ev.evaluateAction_eq_ok_iff.1 hn
    rw [ev.compute_of_graph hg, ev.evaluateGraph_eq_ok_iff hwf (Action.keys_of_validate hinputs)
      (ev.namesOutlets_evaluateAction n 1)] at hcompute
    obtain ⟨horder, σ, hsolves, hresults⟩ := hcompute
    exact ⟨horder, validated, hinputs, σ, hsolves.succeeds, results, hresults, houtputs⟩
  · -- One level above one that is high enough for all steps is enough.
    rintro ⟨horder, validated, hinputs, σ, hsolves, results, hresults, houtputs⟩
    obtain ⟨n, hn⟩ := hsolves.exists_level
    have hcompute : (ev.compute (ev.evaluateAction n 1) 0 A validated).result = .ok results := by
      rw [ev.compute_of_graph hg, ev.evaluateGraph_eq_ok_iff hwf
        (Action.keys_of_validate hinputs) (ev.namesOutlets_evaluateAction n 1)]
      exact ⟨horder, σ, hn n (Nat.le_refl n) 1, hresults⟩
    exact returns_of_evaluateAction (r := .ok outputs)
      (ev.evaluateAction_eq_ok_iff.2 ⟨validated, hinputs, results, hcompute, houtputs⟩)

/-- An algorithm fails with the error at which its computation ends at some level. -/
theorem returns_error_of_endsAt {validated : Record}
    (hinputs : A.validate .inward (ev.inject A inputs) = .ok validated) {n k : Nat}
    (hends : ev.EndsAt (ev.evaluateAction n 1) A g validated k (.failed e)) :
    ev.Returns A inputs (.error e) := by
  refine returns_of_evaluateAction (n := n + 1) (d := 0)
    (ev.evaluateAction_eq_error_iff.2 (.inr ⟨validated, hinputs, .inl ?_⟩))
  rw [ev.compute_of_graph hg, ev.evaluateGraph_eq_error_iff hwf
    (Action.keys_of_validate hinputs) (ev.namesOutlets_evaluateAction n 1)]
  exact ⟨k, hends⟩

/-- The error of a step, after steps that are solved, is that of the algorithm. -/
theorem returns_error_of_step (horder : g.InOrder) {validated : Record}
    (hinputs : A.validate .inward (ev.inject A inputs) = .ok validated) {k : Nat} {s : Step}
    (hs : g.steps[k]? = some s) {σ : Assignment}
    (hsolves : σ.SolvesBelow ev.context g validated ev.Succeeds k) {args : Record}
    (hargs : σ.arguments? ev.context g validated s = some args)
    (hfails : ev.Returns s.action args (.error e)) : ev.Returns A inputs (.error e) := by
  obtain ⟨n, hn⟩ := hsolves.exists_level
  obtain ⟨l, hl⟩ := hfails.eventually
  have hends : ev.EndsAt (ev.evaluateAction (max n l) 1) A g validated k (.failed e) :=
    .nested hs (fun j _ => horder j) (hn _ (Nat.le_max_left n l) 1) hargs
      (hl _ (Nat.le_max_right n l) 1)
  exact returns_error_of_endsAt hwf hg hinputs hends

/-- An algorithm that is in order fails for its inputs, at a step, or for its outputs. -/
theorem cases_of_returns_error (horder : g.InOrder) (h : ev.Returns A inputs (.error e)) :
    A.validate .inward (ev.inject A inputs) = .error e ∨
    ∃ validated, A.validate .inward (ev.inject A inputs) = .ok validated ∧
      ((∃ k s, g.steps[k]? = some s ∧
        ∃ σ : Assignment, σ.SolvesBelow ev.context g validated ev.Succeeds k ∧
          ∃ args, σ.arguments? ev.context g validated s = some args ∧
            ev.Returns s.action args (.error e)) ∨
      ∃ σ : Assignment, σ.SolvesBelow ev.context g validated ev.Succeeds g.steps.length ∧
        ∃ results, σ.results? g validated A = some results ∧
          A.validate .outward results = .error e) := by
  obtain ⟨n, hn⟩ := h.exists_succ
  rcases ev.evaluateAction_eq_error_iff.1 hn with hinputs | ⟨validated, hinputs, hcompute⟩
  · exact .inl hinputs
  · have hkeys := Action.keys_of_validate hinputs
    have hnested := ev.namesOutlets_evaluateAction n 1
    refine .inr ⟨validated, hinputs, ?_⟩
    rw [ev.compute_of_graph hg] at hcompute
    rcases hcompute with hcompute | ⟨results, hcompute, houtputs⟩
    · obtain ⟨k, hends⟩ := (ev.evaluateGraph_eq_error_iff hwf hkeys hnested).1 hcompute
      cases hends with
      | nested hs _ hsolves hargs hfails =>
        exact .inl ⟨k, _, hs, _, hsolves.succeeds, _, hargs, returns_of_evaluateAction hfails⟩
      | late hs _ _ hlate _ =>
        -- Nothing is read late in an algorithm that is in order.
        exact absurd hlate (horder k _ hs _ _)
    · obtain ⟨-, σ, hsolves, hresults⟩ :=
        (ev.evaluateGraph_eq_ok_iff hwf hkeys hnested).1 hcompute
      exact .inr ⟨σ, hsolves.succeeds, results, hresults, houtputs⟩

/-- The error of the outputs, after all steps are solved, is that of the algorithm. -/
theorem returns_error_of_outputs (horder : g.InOrder) {validated : Record}
    (hinputs : A.validate .inward (ev.inject A inputs) = .ok validated) {σ : Assignment}
    (hsolves : σ.SolvesBelow ev.context g validated ev.Succeeds g.steps.length)
    {results : Record} (hresults : σ.results? g validated A = some results)
    (houtputs : A.validate .outward results = .error e) : ev.Returns A inputs (.error e) := by
  obtain ⟨n, hn⟩ := hsolves.exists_level
  refine returns_of_evaluateAction (n := n + 1) (d := 0)
    (ev.evaluateAction_eq_error_iff.2 (.inr ⟨validated, hinputs, .inr ⟨results, ?_, houtputs⟩⟩))
  rw [ev.compute_of_graph hg, ev.evaluateGraph_eq_ok_iff hwf (Action.keys_of_validate hinputs)
    (ev.namesOutlets_evaluateAction n 1)]
  exact ⟨horder, σ, hn n (Nat.le_refl n) 1, hresults⟩

end Evaluator

/-- An algorithm in order succeeds exactly if its inputs are valid and some values at the
    outlets of its steps agree with what every step returns on its own for the arguments
    that the binds give it; the outputs are what the binds give the outlets, validated. It
    fails with the error of the first part that fails: of the inputs, of a step after steps
    that agree with such values, or of the outputs after all steps. -/
theorem returns_iff_of_inOrder {A : Action} {g : Graph} (hbuilt : A.Built)
    (hg : A.graph = some g) (horder : g.InOrder) (ev : Evaluator) (inputs : Record) :
    (∀ outputs, ev.Returns A inputs (.ok outputs) ↔
      ∃ validated, A.validate .inward (ev.inject A inputs) = .ok validated ∧
        ∃ σ : Assignment, σ.SolvesBelow ev.context g validated ev.Succeeds g.steps.length ∧
          ∃ results, σ.results? g validated A = some results ∧
            A.validate .outward results = .ok outputs) ∧
    (∀ e, ev.Returns A inputs (.error e) ↔
      A.validate .inward (ev.inject A inputs) = .error e ∨
      ∃ validated, A.validate .inward (ev.inject A inputs) = .ok validated ∧
        ((∃ k s, g.steps[k]? = some s ∧
          ∃ σ : Assignment, σ.SolvesBelow ev.context g validated ev.Succeeds k ∧
            ∃ args, σ.arguments? ev.context g validated s = some args ∧
              ev.Returns s.action args (.error e)) ∨
        ∃ σ : Assignment, σ.SolvesBelow ev.context g validated ev.Succeeds g.steps.length ∧
          ∃ results, σ.results? g validated A = some results ∧
            A.validate .outward results = .error e)) := by
  have hwf := hbuilt.wellFormed_of_graph hg
  refine ⟨fun outputs => (Evaluator.succeeds_iff hwf hg).trans (and_iff_right horder),
    fun e => ⟨Evaluator.cases_of_returns_error hwf hg horder, ?_⟩⟩
  rintro (hinputs | ⟨validated, hinputs, hlater⟩)
  · exact Evaluator.returns_of_evaluateAction (n := 1) (d := 0)
      (ev.evaluateAction_eq_error_iff.2 (.inl hinputs))
  · rcases hlater with ⟨k, s, hs, σ, hsolves, args, hargs, hfails⟩ |
      ⟨σ, hsolves, results, hresults, houtputs⟩
    · exact Evaluator.returns_error_of_step hwf hg horder hinputs hs hsolves hargs hfails
    · exact Evaluator.returns_error_of_outputs hwf hg horder hinputs hsolves hresults houtputs

/-! ## The relay, evaluated -/

namespace Relay

theorem inOrder : graph.InOrder := by
  rintro (_ | _ | k) s hs (_ | _ | _ | i) port ⟨-, hsource, hlate⟩ <;>
    cases hs <;> cases hsource
  exact absurd hlate (by decide)

/-- The engine of the relay. -/
def engine : EngineKey := ⟨"host"⟩

/-- Another engine. -/
def spare : EngineKey := ⟨"spare"⟩

/-- Passes the argument on. -/
def pass : Callable := ⟨["a"], fun args => .ok (.sequence args.values)⟩

/-- Gives the two arguments beside the context as a list. -/
def pair : Callable :=
  ⟨["context", "left", "right"],
    fun args => .ok (.single (.json (.array (args.values.tail.map Value.toJson))))⟩

/-- The catalog with a strategy for every step of the relay. -/
def catalog : Catalog where
  actions := ∅
  algorithms := ∅
  implementations := ⟨.ofList [
    ("Echo", .ofList [(engine, ⟨echo, engine, .callable pass⟩)]),
    ("Join", .ofList [(engine, ⟨join, engine, .callable pair⟩)])]⟩

/-- The evaluator of the relay. -/
def evaluator : Evaluator := ⟨catalog, .default, .ofSettings 0 []⟩

/-- A record of one value. -/
def single (name : String) (j : Json) : Record := .ofList [(name, .json j)]

theorem returns : evaluator.Returns relay (single "a" (.bool true))
    (.ok (single "res" (.array [.bool true, .null]))) := ⟨2, rfl⟩

end Relay

/-- The values that the steps of the relay agree with. -/
theorem returns_iff_of_inOrder_relay :
    Relay.relay.Built ∧ Relay.relay.graph = some Relay.graph ∧ Relay.graph.InOrder ∧
      ∃ σ : Assignment,
        σ.SolvesBelow Relay.evaluator.context Relay.graph (Relay.single "a" (.bool true))
          Relay.evaluator.Succeeds 2 ∧
        ∃ results, σ.results? Relay.graph (Relay.single "a" (.bool true)) Relay.relay =
            some results ∧
          Relay.relay.validate .outward results =
            .ok (Relay.single "res" (.array [.bool true, .null])) := by
  refine ⟨Relay.built, rfl, Relay.inOrder, ?_⟩
  obtain ⟨validated, hinputs, hsolved⟩ :=
    ((returns_iff_of_inOrder Relay.built rfl Relay.inOrder Relay.evaluator _).1 _).1 Relay.returns
  obtain rfl : Relay.single "a" (.bool true) = validated := Except.ok.inj hinputs
  exact hsolved

end Dataflow
