import Dataflow.Proofs.Evaluation.Composition
import Dataflow.Proofs.Evaluation.Events
import Dataflow.Proofs.Evaluation.Visits

/-!
# Tracing values

A configuration may ask for the values that steps take and give to be logged. That is all it
does: the evaluation has the same result, and without these values its log is the one that it has
otherwise (`Run.ErasesTo`, which chaining respects).

In the log of a tracing evaluation the events of a step are in brackets: it is announced, its
inputs follow at once, then everything that its evaluation logs, brackets of other steps included,
and then its outputs if it succeeds. If it fails nothing follows, as the steps around it fail with
it. What stands where is said event by event (`Evaluator.Placed`) and holds of every run that is
put together of such runs (`Evaluator.Bracketed.bind`).
-/

namespace Dataflow

/-! ## The log without values -/

/-- Whether an event carries the values that a step takes or gives. -/
def Event.carriesValues : Event → Bool
  | stepInputs .. | stepOutputs .. => true
  | _ => false

/-- A log without the values that steps take and give. -/
def withoutValues (log : List Event) : List Event := log.filter fun e => !e.carriesValues

/-- The second run is the first one without the values that steps take and give. -/
structure Run.ErasesTo {ε α : Type} (x y : Run ε α) : Prop where
  result : x.result = y.result
  events : withoutValues x.events = y.events

/-- Chaining respects the removal of values. -/
theorem Run.isCongruence_erasesTo {ε : Type} :
    IsCongruence fun (α : Type) (x y : Run ε α) => x.ErasesTo y where
  refl h := ⟨rfl, by rw [h]; rfl⟩
  bind {α β x y f g} hx hf := by
    rw [bind_eq, bind_eq]
    cases hresult : x.result with
    | error e =>
      rw [bind_of_error hresult, bind_of_error (hx.result ▸ hresult)]
      exact ⟨rfl, hx.events⟩
    | ok a =>
      rw [bind_of_ok hresult, bind_of_ok (hx.result ▸ hresult)]
      refine ⟨(hf a).result, ?_⟩
      rw [withoutValues, List.filter_append]
      exact congrArg₂ (· ++ ·) hx.events (hf a).events

namespace Evaluator

section

variable (catalog : Catalog) (engineKey : String) (context : Context)

/-- An evaluator that logs values and one that does not need nothing else to be related. -/
theorem alike_erasesTo (d : Nat) :
    Alike (fun _ x y => x.ErasesTo y) ⟨catalog, ⟨engineKey, true⟩, context⟩
      ⟨catalog, ⟨engineKey, false⟩, context⟩ d d where
  congruence := Run.isCongruence_erasesTo
  context := rfl
  selection a := by
    refine ⟨rfl, List.filter_eq_self.2 fun e he => ?_⟩
    obtain ⟨s, -, rfl⟩ := eq_of_mem_events_select _ he
    rfl
  executing _ _ _ := ⟨rfl, rfl⟩
  inputs _ _ := ⟨rfl, rfl⟩
  outputs _ _ := ⟨rfl, rfl⟩

theorem evaluateAction_erasesTo (n d : Nat) :
    RelatedNested (fun _ x y => x.ErasesTo y)
      ((Evaluator.mk catalog ⟨engineKey, true⟩ context).evaluateAction n d)
      ((Evaluator.mk catalog ⟨engineKey, false⟩ context).evaluateAction n d) := by
  induction n generalizing d with
  | zero => exact fun _ _ => ⟨rfl, rfl⟩
  | succ n ih => exact (alike_erasesTo catalog engineKey context d).evaluateAction_succ (ih (d + 1))

/-- Without the values that it logs, an evaluation is the one that logs none. -/
theorem evaluate_erasesTo (limit : Nat) (a : Action) (inputs : Record) :
    ((Evaluator.mk catalog ⟨engineKey, true⟩ context).evaluate limit a inputs).ErasesTo
      ((Evaluator.mk catalog ⟨engineKey, false⟩ context).evaluate limit a inputs) := by
  refine Run.isCongruence_erasesTo.bind ⟨rfl, rfl⟩ fun _ => ?_
  refine Run.isCongruence_erasesTo.bind
    (evaluateAction_erasesTo catalog engineKey context limit 0 a inputs) fun outputs => ?_
  exact Run.isCongruence_erasesTo.bind ⟨rfl, rfl⟩ fun _ => ⟨rfl, rfl⟩

end

end Evaluator

/-! ## Steps in the log -/

/-- Whether an event is about a step. -/
def Event.isOfStep : Event → Bool
  | executingStep .. | stepInputs .. | stepOutputs .. => true
  | _ => false

/-- The evaluation of a step: the visit of the algorithm that it belongs to, the step and its
    arguments. -/
structure Execution where
  /-- The visit of the algorithm. -/
  visit : Visit
  /-- The step. -/
  step : Step
  /-- The arguments. -/
  args : Record

namespace Execution

variable (x : Execution)

/-- The event that announces the step. -/
def started : Event :=
  .executingStep x.visit.action.code x.step.ordinal x.step.action.code x.visit.depth

/-- The event of its inputs. -/
def inputs : Event := .stepInputs x.step.ordinal x.args.toJson

/-- The event of outputs of it. -/
def outputs (outputs : Record) : Event := .stepOutputs x.step.ordinal outputs.toJson

/-- What the evaluation of the step comes to, one level below the algorithm. -/
def run (ev : Evaluator) (limit : Nat) : Run Halt Record :=
  ev.evaluateAction (limit - (x.visit.depth + 1)) (x.visit.depth + 1) x.step.action x.args

/-- What is logged when the step is done: its outputs, if it has any. -/
def closing (ev : Evaluator) (limit : Nat) : List Event :=
  match (x.run ev limit).result with
  | .ok outputs => [x.outputs outputs]
  | .error _ => []

/-- The run of a step in the log of a tracing evaluation: what its evaluation comes to, in
    brackets. -/
def traced (ev : Evaluator) (limit : Nat) : Run Halt Record := do
  .log x.started
  .log x.inputs
  let outputs ← x.run ev limit
  .log (x.outputs outputs)
  return outputs

variable {x} {ev : Evaluator} {limit : Nat}

theorem closing_of_ok {outputs : Record} (h : (x.run ev limit).result = .ok outputs) :
    x.closing ev limit = [x.outputs outputs] := by
  rw [closing, h]

theorem closing_of_error {halt : Halt} (h : (x.run ev limit).result = .error halt) :
    x.closing ev limit = [] := by
  rw [closing, h]

@[simp] theorem result_traced : (x.traced ev limit).result = (x.run ev limit).result := by
  rw [traced]
  simp only [Run.result_bind, Run.result_log, Run.result_pure]
  show ((x.run ev limit).result >>= fun outputs => .ok outputs) = _
  cases (x.run ev limit).result <;> rfl

theorem events_traced :
    (x.traced ev limit).events =
      x.started :: x.inputs :: ((x.run ev limit).events ++ x.closing ev limit) := by
  show x.started :: x.inputs :: ((x.run ev limit).bind fun outputs => _).events = _
  cases hresult : (x.run ev limit).result with
  | error halt => rw [Run.bind_of_error hresult, closing_of_error hresult, List.append_nil]
  | ok outputs =>
    rw [Run.bind_of_ok hresult, closing_of_ok hresult]
    rfl

end Execution

/-- An element of a list in two parts is in one of them. -/
theorem eq_append_cons_cases {α : Type} {xs ys before after : List α} {e : α}
    (h : xs ++ ys = before ++ e :: after) :
    (∃ rest, xs = before ++ e :: rest ∧ after = rest ++ ys) ∨
      ∃ earlier, before = xs ++ earlier ∧ ys = earlier ++ e :: after := by
  rcases List.append_eq_append_iff.1 h with ⟨earlier, hbefore, hys⟩ | ⟨rest, hxs, hrest⟩
  · exact .inr ⟨earlier, hbefore, hys⟩
  · rcases List.cons_eq_append_iff.1 hrest with ⟨rfl, hys⟩ | ⟨rest, rfl, hafter⟩
    · exact .inr ⟨[], by simpa using hxs.symm, hys⟩
    · exact .inl ⟨rest, hxs, hafter⟩

namespace Evaluator

variable (ev : Evaluator)

/-- The visit of an algorithm gets as far as a step, and evaluates it with the arguments that the
    steps before leave for it. -/
inductive Executes (limit : Nat) (v : Visit) (s : Step) : Record → Prop
  | intro {g : Graph} {k : Nat} {validated : Record} {start table : ValueTable}
    {entries : List (String × Value)}
    (hinputs : v.action.validate .inward (ev.inject v.action v.inputs) = .ok validated)
    (hg : v.action.graph = some g) (hs : g.steps[k]? = some s)
    (hstart : ValueTable.enter v.action .inward .inlet [] validated.entries = .ok start)
    (htable : (ev.evaluateSteps (ev.evaluateAction (limit - (v.depth + 1)) (v.depth + 1)) v.depth
      v.action g (g.steps.take k) start).result = .ok table)
    (hargs : ev.arguments v.action g table s = .ok entries) :
    Executes limit v s (.ofList entries)

/-- A visit performs the evaluation of a step, itself or in a visit that is nested in it. -/
structure Performs (limit : Nat) (v : Visit) (x : Execution) : Prop where
  visits : ev.Visits (limit - v.depth) v x.visit
  executes : ev.Executes limit x.visit x.step x.args

/-- Where an event may stand in the log of a tracing run, between what comes before and after,
    given the evaluations of steps that there are and how the run may fail. -/
inductive Placed (limit : Nat) (P : Execution → Prop) (fails : Halt → Prop)
    (before after : List Event) : Event → Prop
  /-- The start of a step is followed by its inputs, by what its evaluation logs and by its
      outputs if that succeeds; otherwise nothing follows, and the run fails like the step. -/
  | started {x : Execution} (later : List Event) (hx : P x)
    (hafter : after = x.inputs :: ((x.run ev limit).events ++ (x.closing ev limit ++ later)))
    (hfailed : ∀ halt, (x.run ev limit).result = .error halt → later = [] ∧ fails halt) :
    Placed limit P fails before after x.started
  /-- Inputs follow the start of their step. -/
  | inputs {x : Execution} (earlier : List Event) (hx : P x)
    (hbefore : before = earlier ++ [x.started]) : Placed limit P fails before after x.inputs
  /-- Outputs end what the start of their step begins. -/
  | outputs {x : Execution} {outputs : Record} (earlier : List Event) (hx : P x)
    (hbefore : before = earlier ++ x.started :: x.inputs :: (x.run ev limit).events)
    (hresult : (x.run ev limit).result = .ok outputs) :
    Placed limit P fails before after (x.outputs outputs)
  /-- The other events may stand anywhere. -/
  | other {e : Event} (h : e.isOfStep = false) : Placed limit P fails before after e

/-- Every event of a run stands where it may. -/
def Bracketed {α : Type} (limit : Nat) (P : Execution → Prop) (y : Run Halt α) : Prop :=
  ∀ before e after, y.events = before ++ e :: after →
    ev.Placed limit P (y.result = .error ·) before after e

variable {ev} {limit : Nat} {P Q : Execution → Prop} {α β : Type}

/-- An event keeps its place in a longer log, which ends where a step fails. -/
theorem Placed.extend {fails fails' : Halt → Prop} {before after : List Event} {e : Event}
    (h : ev.Placed limit P fails before after e) (hP : ∀ x, P x → Q x)
    (earlier rest : List Event)
    (hfails : ∀ halt, fails halt → rest = [] ∧ fails' halt) :
    ev.Placed limit Q fails' (earlier ++ before) (after ++ rest) e := by
  cases h with
  | started later hx hafter hfailed =>
    refine .started (later ++ rest) (hP _ hx) ?_ fun halt hhalt => ?_
    · simp only [hafter, List.cons_append, List.append_assoc]
    · obtain ⟨rfl, hhalt⟩ := hfailed halt hhalt
      obtain ⟨rfl, hhalt⟩ := hfails halt hhalt
      exact ⟨rfl, hhalt⟩
  | inputs _ hx hbefore => exact .inputs _ (hP _ hx) (by rw [hbefore, List.append_assoc])
  | outputs _ hx hbefore hresult =>
    exact .outputs _ (hP _ hx) (by rw [hbefore, List.append_assoc]) hresult
  | other he => exact .other he

/-- A step fails, and the run with it, if its inputs are the last thing that is logged. -/
theorem Placed.exists_error {fails : Halt → Prop} {before : List Event} {e : Event}
    {algorithm code : String} {ordinal depth : Nat}
    (h : ev.Placed limit P fails before [e] (.executingStep algorithm ordinal code depth)) :
    ∃ x, P x ∧ x.started = .executingStep algorithm ordinal code depth ∧ x.inputs = e ∧
      ∃ halt, (x.run ev limit).result = .error halt ∧ fails halt := by
  generalize hstart : Event.executingStep algorithm ordinal code depth = start at h
  cases h with
  | @started x later hx hafter hfailed =>
    -- Nothing is left for what the step logs, nor for its outputs.
    obtain ⟨rfl, hnil⟩ := List.cons.inj hafter
    obtain ⟨-, hnil⟩ := List.append_eq_nil_iff.1 hnil.symm
    obtain ⟨hclosing, -⟩ := List.append_eq_nil_iff.1 hnil
    refine ⟨x, hx, rfl, rfl, ?_⟩
    cases hresult : (x.run ev limit).result with
    | error halt => exact ⟨halt, rfl, (hfailed halt hresult).2⟩
    | ok outputs => cases (Execution.closing_of_ok hresult).symm.trans hclosing
  | inputs _ _ _ => cases hstart
  | outputs _ _ _ _ => cases hstart
  | other hother =>
    subst hstart
    cases hother

namespace Bracketed

variable {x : Run Halt α} {f : α → Run Halt β}

theorem of_events (h : ∀ e ∈ x.events, e.isOfStep = false) : ev.Bracketed limit P x :=
  fun before e after heq => .other (h e (heq ▸ by simp))

theorem of_silent (h : x.events = []) : ev.Bracketed limit P x :=
  of_events fun e he => by
    rw [h] at he
    cases he

/-- One event that is not about a step has no brackets. -/
theorem log {e : Event} (he : e.isOfStep = false) : ev.Bracketed limit P (.log e : Run Halt Unit) :=
  of_events fun _ h => List.mem_singleton.1 h ▸ he

theorem imp (h : ev.Bracketed limit P x) (hP : ∀ x, P x → Q x) : ev.Bracketed limit Q x := by
  intro before e after heq
  simpa using (h before e after heq).extend hP [] [] fun _ hhalt => ⟨rfl, hhalt⟩

theorem bind (hx : ev.Bracketed limit P x)
    (hf : ∀ a, x.result = .ok a → ev.Bracketed limit P (f a)) : ev.Bracketed limit P (x >>= f) := by
  intro before e after heq
  rw [Run.bind_eq] at heq ⊢
  cases hresult : x.result with
  | error halt =>
    -- The chain ends here, with the error of its first part.
    rw [Run.bind_of_error hresult] at heq ⊢
    refine List.append_nil after ▸ (hx before e after heq).extend (fun _ h => h) [] [] ?_
    intro halt' hhalt
    exact ⟨rfl, congrArg _ (Except.error.inj (hresult.symm.trans hhalt))⟩
  | ok a =>
    rw [Run.bind_of_ok hresult] at heq ⊢
    rcases eq_append_cons_cases heq with ⟨rest, hxs, rfl⟩ | ⟨earlier, rfl, hys⟩
    · -- No step of the first part has failed.
      refine (hx before e rest hxs).extend (fun _ h => h) [] _ fun halt hhalt => ?_
      rw [hresult] at hhalt
      cases hhalt
    · simpa using (hf a hresult earlier e after hys).extend (fun _ h => h) x.events []
        fun _ hhalt => ⟨rfl, hhalt⟩

/-- The evaluation of a step puts what it logs in brackets. -/
theorem traced {x : Execution} (hx : P x) (hrun : ev.Bracketed limit P (x.run ev limit)) :
    ev.Bracketed limit P (x.traced ev limit) := by
  intro before e after heq
  rw [Execution.events_traced] at heq
  rw [Execution.result_traced]
  -- The event is the start of the step, or its inputs, or it comes later.
  rcases before with - | ⟨b, - | ⟨c, before⟩⟩
  · obtain ⟨rfl, rfl⟩ := List.cons.inj heq
    exact .started [] hx (by rw [List.append_nil]) fun _ hhalt => ⟨rfl, hhalt⟩
  · simp only [List.cons_append, List.nil_append, List.cons.injEq] at heq
    obtain ⟨rfl, rfl, -⟩ := heq
    exact .inputs [] hx rfl
  · simp only [List.cons_append, List.cons.injEq] at heq
    obtain ⟨rfl, rfl, heq⟩ := heq
    rcases eq_append_cons_cases heq with ⟨rest, hevents, rfl⟩ | ⟨earlier, rfl, hclosing⟩
    · refine (hrun before e rest hevents).extend (fun _ h => h) [x.started, x.inputs] _ ?_
      exact fun halt hhalt => ⟨Execution.closing_of_error hhalt, hhalt⟩
    · -- What is left are the outputs, if there are any.
      cases hresult : (x.run ev limit).result with
      | error halt =>
        rw [Execution.closing_of_error hresult] at hclosing
        simp at hclosing
      | ok outputs =>
        rw [Execution.closing_of_ok hresult] at hclosing
        rcases earlier with - | ⟨b, earlier⟩
        · obtain ⟨rfl, rfl⟩ := List.cons.inj hclosing
          exact .outputs [] hx (by simp) hresult
        · simp at hclosing

end Bracketed

/-! ## Evaluations -/

section

variable (htrace : ev.config.traceValues = true) {v : Visit} {g : Graph} {s : Step}
  {validated : Record} {start table : ValueTable} {entries : List (String × Value)}

include htrace

/-- A step that has its arguments is evaluated in brackets. -/
theorem evaluateStep_of_trace (hargs : ev.arguments v.action g table s = .ok entries) :
    ev.evaluateStep (ev.evaluateAction (limit - (v.depth + 1)) (v.depth + 1)) v.depth v.action g
      table s = Execution.traced ⟨v, s, .ofList entries⟩ ev limit := by
  have hlog (e : Event) : ev.logValues e = .log e := if_pos htrace
  rw [evaluateStep, hargs]
  simp only [hlog]
  rfl

variable (hinputs : v.action.validate .inward (ev.inject v.action v.inputs) = .ok validated)
  (hP : ∀ s args, ev.Executes limit v s args → P ⟨v, s, args⟩)
  (hnested : ∀ role b args,
    ev.Nests (ev.evaluateAction (limit - (v.depth + 1)) (v.depth + 1)) v.depth v.action validated
      role b args →
    ev.Bracketed limit P (ev.evaluateAction (limit - (v.depth + 1)) (v.depth + 1) b args))

include hinputs hP hnested

theorem bracketed_evaluateSteps (hg : v.action.graph = some g)
    (hstart : ValueTable.enter v.action .inward .inlet [] validated.entries = .ok start) (k : Nat) :
    ev.Bracketed limit P (ev.evaluateSteps
      (ev.evaluateAction (limit - (v.depth + 1)) (v.depth + 1)) v.depth v.action g (g.steps.take k)
      start) := by
  induction k with
  | zero => exact .of_silent rfl
  | succ k ih =>
    rcases hs : g.steps[k]? with - | s
    · rw [List.take_of_length_le (List.getElem?_eq_none_iff.1 hs)] at ih
      rwa [List.take_of_length_le (Nat.le_succ_of_le (List.getElem?_eq_none_iff.1 hs))]
    · rw [List.take_add_one, hs, evaluateSteps_append]
      refine ih.bind fun table htable => Bracketed.bind ?_ fun outputs _ =>
        Bracketed.bind (.of_silent rfl) fun table' _ => .of_silent rfl
      cases hargs : ev.arguments v.action g table s with
      | error e =>
        -- Without arguments, the step is not announced.
        refine .of_silent ?_
        rw [evaluateStep, hargs]
        rfl
      | ok entries =>
        rw [evaluateStep_of_trace htrace hargs]
        exact .traced (hP s _ (.intro hinputs hg hs hstart htable hargs))
          (hnested .step s.action _ (.step hg hs hstart htable hargs))

theorem bracketed_compute :
    ev.Bracketed limit P (ev.compute
      (ev.evaluateAction (limit - (v.depth + 1)) (v.depth + 1)) v.depth v.action validated) := by
  rcases hg : v.action.graph with - | g
  · rw [ev.compute_of_plain hg]
    refine .bind (.of_events fun e he => ?_) fun s hs => ?_
    · obtain ⟨s, -, rfl⟩ := ev.eq_of_mem_events_select he
      rfl
    · rw [result_select] at hs
      rw [runStrategy]
      cases htarget : s.target with
      | action target =>
        exact hnested .delegation target validated (.delegation hg (expect_eq_ok.1 hs) htarget)
      | callable c => exact .bind (.of_silent rfl) fun _ _ => .of_silent rfl
  · rw [compute, hg]
    refine .bind (.of_silent rfl) fun start hstart => ?_
    have hsteps := bracketed_evaluateSteps htrace hinputs hP hnested hg (expect_eq_ok.1 hstart)
      g.steps.length
    rw [List.take_length] at hsteps
    exact hsteps.bind fun table _ => .bind (.of_silent rfl) fun _ _ => .of_silent rfl

omit hinputs hP hnested in
/-- The events of the steps that an evaluation performs are in brackets. -/
theorem bracketed_evaluateAction (n : Nat) (v : Visit) (hlimit : limit = n + v.depth) :
    ev.Bracketed limit (ev.Performs limit v) (ev.evaluateAction n v.depth v.action v.inputs) := by
  induction n generalizing v with
  | zero => exact .of_silent rfl
  | succ n ih =>
    -- The levels that are left and the depth add up to the limit.
    obtain rfl : n = limit - (v.depth + 1) := by omega
    have hlevels : limit - v.depth = limit - (v.depth + 1) + 1 := by omega
    rw [evaluateAction]
    refine .bind (.of_silent rfl) fun validated hvalidated => ?_
    have hinputs := expect_eq_ok.1 hvalidated
    refine Bracketed.bind ?_ fun outputs _ => .of_silent rfl
    refine bracketed_compute htrace hinputs (fun s args h => ⟨hlevels ▸ .self, h⟩)
      fun role b args hnests => ?_
    refine (ih ⟨role, v.depth + 1, b, args⟩ (by simp; omega)).imp fun x hx => ⟨?_, hx.executes⟩
    rw [hlevels]
    exact .nested hinputs hnests hx.visits

end

end Evaluator

/-- The configuration of an evaluation may ask for the values of steps to be logged without any
    other effect: the result is the same, and without these values the log is the same. In the
    log with them every start of a step is followed at once by its inputs, then by all that its
    evaluation logs, and then by its outputs if that succeeds; if it fails, nothing follows. There
    are no other inputs and outputs of steps in the log. -/
theorem tracing_observes (catalog : Catalog) (engineKey : String) (context : Context)
    (a : Action) (inputs : Record) (limit : Nat) :
    let traced : Evaluator := ⟨catalog, ⟨engineKey, true⟩, context⟩
    let plain : Evaluator := ⟨catalog, ⟨engineKey, false⟩, context⟩
    (traced.evaluate limit a inputs).ErasesTo (plain.evaluate limit a inputs) ∧
      ∀ before e after, (traced.evaluate limit a inputs).events = before ++ e :: after →
        traced.Placed limit (traced.Performs limit ⟨.caller, 0, a, inputs⟩)
          ((traced.evaluate limit a inputs).result = .error ·) before after e := by
  intro traced plain
  refine ⟨Evaluator.evaluate_erasesTo catalog engineKey context limit a inputs, ?_⟩
  have hvalues : traced.config.traceValues = true := rfl
  have haction := Evaluator.bracketed_evaluateAction hvalues limit ⟨.caller, 0, a, inputs⟩ rfl
  refine Evaluator.Bracketed.bind (.log rfl) fun _ _ => haction.bind fun outputs _ => ?_
  exact Evaluator.Bracketed.bind (.log rfl) fun _ _ => .of_silent rfl

namespace Relay

/-- The catalog without a strategy for the second step of the relay. -/
def echoCatalog : Catalog :=
  ⟨∅, ∅, ⟨.ofList [("Echo", .ofList [(engine, ⟨echo, engine, .callable pass⟩)])]⟩⟩

/-- The evaluator of a catalog that logs values or does not. -/
def logging (catalog : Catalog) (traceValues : Bool) : Evaluator :=
  ⟨catalog, ⟨"engine", traceValues⟩, .ofSettings 0 []⟩

/-- The relay is evaluated by it. -/
def evaluated (catalog : Catalog) (traceValues : Bool) : Run Halt Record :=
  (logging catalog traceValues).evaluate 2 relay (single "a" (.bool true))

end Relay

/-- With strategies for both steps of the relay both succeed, and what is logged beside their values
    is what is logged without them. Without a strategy for the second step that fails: its inputs
    are the last thing that is logged, and the relay fails with it. -/
theorem tracing_observes_relay :
    (Relay.evaluated Relay.catalog false).result =
      .ok (Relay.single "res" (.array [.bool true, .null])) ∧
    (Relay.evaluated Relay.catalog true).events.map Event.message =
      ["Evaluation started", "Executing step", "Step inputs", "Strategy selected", "Step outputs",
        "Executing step", "Step inputs", "Strategy selected", "Step outputs",
        "Evaluation completed"] ∧
    (Relay.evaluated Relay.catalog false).events.map Event.message =
      ["Evaluation started", "Executing step", "Strategy selected", "Executing step",
        "Strategy selected", "Evaluation completed"] ∧
    ∃ x : Execution,
      (Relay.logging Relay.echoCatalog true).Performs 2
        ⟨.caller, 0, Relay.relay, Relay.single "a" (.bool true)⟩ x ∧
      (Relay.evaluated Relay.echoCatalog true).events.drop 5 = [x.started, x.inputs] ∧
      (x.run (Relay.logging Relay.echoCatalog true) 2).result =
        .error (.failed (.noImplementation "Join")) ∧
      (Relay.evaluated Relay.echoCatalog false).result =
        .error (.failed (.noImplementation "Join")) := by
  obtain ⟨herases, -⟩ := tracing_observes Relay.catalog "engine" (.ofSettings 0 []) Relay.relay
    (Relay.single "a" (.bool true)) 2
  obtain ⟨hfails, hplaced⟩ := tracing_observes Relay.echoCatalog "engine" (.ofSettings 0 [])
    Relay.relay (Relay.single "a" (.bool true)) 2
  have hstarted := hplaced ((Relay.evaluated Relay.echoCatalog true).events.take 5)
    (.executingStep "Relay" 1 "Join" 0) ((Relay.evaluated Relay.echoCatalog true).events.drop 6) rfl
  obtain ⟨x, hx, hstart, hinputs, halt, hresult, hhalt⟩ := hstarted.exists_error
  obtain rfl : Halt.failed (.noImplementation "Join") = halt := Except.error.inj hhalt
  exact ⟨herases.result.symm.trans rfl, rfl,
    (congrArg (List.map Event.message) herases.events.symm).trans rfl, x, hx,
    congrArg₂ (fun e e' => [e, e']) hstart.symm hinputs.symm, hresult,
    hfails.result.symm.trans rfl⟩

end Dataflow
