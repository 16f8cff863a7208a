import Dataflow.Proofs.Catalog.History
import Dataflow.Proofs.Evaluation.Composition

/-!
# Evaluations that do not see the context

The context comes into an evaluation in two ways: by the engine that it names, which the choices of
strategies go by, and by the inlets that receive it. Where none of the actions that are reached has
such an inlet (`Catalog.HidesContext`), the engine is all that counts: evaluations in two contexts
that name the same engine, each under the setting that its configuration says, have the same result
(`Evaluator.evaluate_congr_of_hidesContext`).
-/

namespace Dataflow

/-- No port receives the context. -/
def Ports.ContextFree (ports : Ports) : Prop := ∀ p ∈ ports.parameters, p.type.isContext = false

/-- No action that an action reaches has an inlet that receives the context. -/
def Catalog.HidesContext (c : Catalog) (a : Action) : Prop :=
  ∀ b, c.Reaches a b → b.inlets.ContextFree

theorem Catalog.HidesContext.of_calls {c : Catalog} {a b : Action} (h : c.HidesContext a)
    (hcalls : c.Calls a b) : c.HidesContext b :=
  fun b' hb' => h b' (hb'.head hcalls)

namespace Evaluator

/-- Two evaluators have the same strategies to choose from, for the same engine. -/
structure SameChoices (ev ev' : Evaluator) : Prop where
  /-- The catalog is the same. -/
  catalog : ev.catalog = ev'.catalog
  /-- The contexts name the same engine. -/
  engine : ev.engine? = ev'.engine?

/-- Nothing is put into the inputs of an action without an inlet that receives the context. -/
theorem inject_of_contextFree (ev : Evaluator) {a : Action} (h : a.inlets.ContextFree)
    (inputs : Record) : ev.inject a inputs = inputs := by
  rw [inject]
  split
  · next port hport =>
    obtain ⟨hp, hc⟩ := Action.mem_of_contextInlet? hport
    rw [h _ hp] at hc
    cases hc
  · rfl

section

variable {ev ev' : Evaluator} {nested nested' : Nested} {d d' n : Nat} {a A : Action} {g : Graph}
  {s : Step} {table : ValueTable}

/-- A step whose action has no such inlet does not see the context. -/
theorem arguments_of_contextFree (h : s.action.inlets.ContextFree) :
    ev.arguments A g table s = ev'.arguments A g table s := by
  refine collect_congr fun i p hp => ?_
  have hc : ¬p.type.isContext = true := by
    rw [h p (List.mem_of_getElem? hp)]
    exact Bool.false_ne_true
  rw [argument, argument, if_neg hc, if_neg hc]

theorem evaluateSteps_of_contextFree {l : List Step}
    (hfree : ∀ s ∈ l, s.action.inlets.ContextFree)
    (hnested : ∀ s ∈ l, ∀ args, (nested s.action args).result = (nested' s.action args).result) :
    (ev.evaluateSteps nested d A g l table).result =
      (ev'.evaluateSteps nested' d' A g l table).result := by
  induction l generalizing table with
  | nil => rfl
  | cons s rest ih =>
    have hstep : (ev.evaluateStep nested d A g table s).result =
        (ev'.evaluateStep nested' d' A g table s).result := by
      have harguments : ev.arguments A g table s = ev'.arguments A g table s :=
        arguments_of_contextFree (hfree s List.mem_cons_self)
      cases hentries : ev'.arguments A g table s with
      | error e =>
        rw [ev'.result_evaluateStep_of_error hentries,
          ev.result_evaluateStep_of_error (harguments.trans hentries)]
      | ok entries =>
        rw [ev'.result_evaluateStep hentries, ev.result_evaluateStep (harguments.trans hentries),
          hnested s List.mem_cons_self]
    have hrest (table : ValueTable) :
        (ev.evaluateSteps nested d A g rest table).result =
          (ev'.evaluateSteps nested' d' A g rest table).result :=
      ih (fun t ht => hfree t (List.mem_cons_of_mem s ht))
        fun t ht => hnested t (List.mem_cons_of_mem s ht)
    simp only [evaluateSteps, Run.result_bind, hstep, hrest, result_expect]

variable (h : SameChoices ev ev')

include h

theorem SameChoices.chooseStrategy (a : Action) : ev.chooseStrategy a = ev'.chooseStrategy a := by
  have hstrategies : ev.strategies a = ev'.strategies a := by
    rw [strategies, strategies, h.catalog]
  have hchosen : ev.chosen? a = ev'.chosen? a := by
    rw [chosen?, chosen?, h.engine, hstrategies]
  have hnone : ev.choiceError a = ev'.choiceError a := by
    rw [choiceError, choiceError, h.engine, hstrategies]
  rw [chooseStrategy_eq, chooseStrategy_eq, hchosen, hnone]

/-- An action is computed to the same result if what it calls is evaluated to the same result. -/
theorem SameChoices.compute (hfree : ∀ b, ev.catalog.Calls a b → b.inlets.ContextFree)
    (hnested : ∀ b, ev.catalog.Calls a b → ∀ args,
      (nested b args).result = (nested' b args).result) (inputs : Record) :
    (ev.compute nested d a inputs).result = (ev'.compute nested' d' a inputs).result := by
  rcases hg : a.graph with - | g
  · rw [ev.compute_of_plain hg, ev'.compute_of_plain hg, Run.result_bind, Run.result_bind,
      result_select, result_select, ← h.chooseStrategy]
    rcases hs : ev.chooseStrategy a with e | s
    · rfl
    · show (runStrategy nested a inputs s).result = (runStrategy nested' a inputs s).result
      rw [runStrategy, runStrategy]
      rcases htarget : s.target with c | target
      · rfl
      · have hmem := mem_strategies_of_chosen? (chooseStrategy_eq_ok_iff.1 hs)
        exact hnested target (.delegate hg hmem htarget) inputs
  · rw [ev.compute_of_graph hg, ev'.compute_of_graph hg]
    have hsteps (table : ValueTable) : (ev.evaluateSteps nested d a g g.steps table).result =
        (ev'.evaluateSteps nested' d' a g g.steps table).result :=
      evaluateSteps_of_contextFree (fun s hs => hfree _ (.step hg hs))
        fun s hs => hnested _ (.step hg hs)
    simp only [evaluateGraph, Run.result_bind, hsteps]

/-- The engine is all that an evaluation sees of the context. -/
theorem SameChoices.evaluateAction (hhides : ev.catalog.HidesContext a) (inputs : Record) :
    (ev.evaluateAction n d a inputs).result = (ev'.evaluateAction n d' a inputs).result := by
  -- By induction on the levels, for every action that hides the context, as what it calls does so.
  induction n generalizing a d d' inputs with
  | zero => rfl
  | succ n ih =>
    have hfree := hhides a .refl
    have hcompute (validated : Record) :
        (ev.compute (ev.evaluateAction n (d + 1)) d a validated).result =
          (ev'.compute (ev'.evaluateAction n (d' + 1)) d' a validated).result :=
      h.compute (fun b hb => hhides b (.single hb))
        (fun b hb args => ih (hhides.of_calls hb) args) validated
    simp only [Evaluator.evaluateAction, ev.inject_of_contextFree hfree,
      ev'.inject_of_contextFree hfree, Run.result_bind, hcompute]

/-- Evaluations that choose alike have the same result if the context is hidden. -/
theorem evaluate_congr_of_hidesContext (hhides : ev.catalog.HidesContext a) (limit : Nat)
    (inputs : Record) :
    (ev.evaluate limit a inputs).result = (ev'.evaluate limit a inputs).result := by
  rw [evaluate_result, evaluate_result]
  exact h.evaluateAction hhides inputs

end

end Evaluator

end Dataflow
