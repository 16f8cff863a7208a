import Dataflow.Proofs.Evaluation.Choice
import Dataflow.Proofs.Evaluation.Table
import Dataflow.Proofs.Run

/-!
# The steps of an algorithm

The steps of a well-formed graph are evaluated one after the other on a growing table. Here
this is related to assignments, which know no order: the evaluation gets past the first `k`
steps exactly if these read nothing late and some assignment agrees with what each of them
gives (`Assignment.SolvesBelow`), and then the table holds that assignment.

* `Evaluator.evaluateGraph_eq_ok_iff`: when an algorithm is computed, and to what.
* `Evaluator.evaluateGraph_eq_error_iff`: which step ends the computation of an algorithm,
  and with what.
-/

namespace Dataflow

namespace Assignment

variable {σ τ : Assignment} {context : Context} {g : Graph} {A : Action} {inputs r : Record}
  {s : Step} {k : Nat} {gives gives' : Action → Record → Record → Prop}

/-- Every step before `k`, with the arguments that the assignment gives it, gives the outputs
    that the assignment says. -/
def SolvesBelow (σ : Assignment) (context : Context) (g : Graph) (inputs : Record)
    (gives : Action → Record → Record → Prop) (k : Nat) : Prop :=
  ∀ j < k, ∀ s, g.steps[j]? = some s → ∃ args,
    σ.arguments? context g inputs s = some args ∧ gives s.action args (σ.outputs s)

theorem SolvesBelow.imp (h : σ.SolvesBelow context g inputs gives k)
    (himp : ∀ a args outputs, gives a args outputs → gives' a args outputs) :
    σ.SolvesBelow context g inputs gives' k := by
  intro j hj s hs
  obtain ⟨args, hargs, hgives⟩ := h j hj s hs
  exact ⟨args, hargs, himp _ _ _ hgives⟩

theorem solvesBelow_zero : σ.SolvesBelow context g inputs gives 0 :=
  fun j hj => absurd hj (Nat.not_lt_zero j)

/-- Solving one step more is solving the steps before and that one. -/
theorem solvesBelow_succ :
    σ.SolvesBelow context g inputs gives (k + 1) ↔ σ.SolvesBelow context g inputs gives k ∧
      ∀ s, g.steps[k]? = some s → ∃ args,
        σ.arguments? context g inputs s = some args ∧ gives s.action args (σ.outputs s) :=
  Nat.forall_lt_succ_right

/-- Solving the steps before `k` is a matter of their outlets alone, if they read nothing
    late. -/
theorem SolvesBelow.congr (h : σ.SolvesBelow context g inputs gives k) (hwf : g.WellFormed A)
    (horder : ∀ j < k, g.InOrderAt j)
    (hστ : ∀ port : StepPort, port.step < k → σ port = τ port) :
    τ.SolvesBelow context g inputs gives k := by
  intro j hj s hs
  have hordinal := (hwf.numbered j s hs).1
  obtain ⟨args, hargs, hgives⟩ := h j hj s hs
  rw [arguments?_congr (fun port hport => hστ port (by omega)) (horder j hj s hs)] at hargs
  rw [outputs_congr fun port hport => hστ port (by omega)] at hgives
  exact ⟨args, hargs, hgives⟩

/-- The assignment with the values of a record at the outlets of the step `k`. -/
def set (σ : Assignment) (k : Nat) (r : Record) : Assignment := fun port =>
  if port.step = k then (r.values[port.port]?).getD default else σ port

theorem set_of_ne {port : StepPort} (h : port.step ≠ k) : σ.set k r port = σ port := if_neg h

theorem outputs_set (hr : r.keys = s.action.outlets.names) :
    (σ.set s.ordinal r).outputs s = r := by
  refine outputs_eq hr fun i hi => ?_
  have hlen : i < r.values.length := by
    rw [OrderedMap.length_values, ← OrderedMap.length_keys, hr, Ports.length_names]
    exact hi
  rw [set, if_pos rfl, List.getElem?_eq_getElem hlen]
  rfl

/-- An assignment that solves the steps before `k` is extended by what the step `k` gives. -/
theorem SolvesBelow.set (h : σ.SolvesBelow context g inputs gives k) (hwf : g.WellFormed A)
    (horder : ∀ j ≤ k, g.InOrderAt j) (hs : g.steps[k]? = some s) {args : Record}
    (hargs : σ.arguments? context g inputs s = some args)
    (hr : r.keys = s.action.outlets.names) (hgives : gives s.action args r) :
    (σ.set k r).SolvesBelow context g inputs gives (k + 1) := by
  -- What the step gives is put at its own outlets, which no earlier step has.
  have hordinal := (hwf.numbered k s hs).1
  have hbefore (port : StepPort) (hport : port.step < k) : σ port = σ.set k r port :=
    (set_of_ne (Nat.ne_of_lt hport)).symm
  refine solvesBelow_succ.2
    ⟨h.congr hwf (fun j hj => horder j (Nat.le_of_lt hj)) hbefore, fun t ht => ?_⟩
  obtain rfl := Option.some.inj (hs.symm.trans ht)
  rw [arguments?_congr (fun port hport => hbefore port (by omega)) (horder k (Nat.le_refl k) s hs)]
    at hargs
  rw [← hordinal] at hargs ⊢
  rw [outputs_set hr]
  exact ⟨args, hargs, hgives⟩

end Assignment

namespace Evaluator

variable (ev : Evaluator) {nested : Nested} {d : Nat} {A : Action} {g : Graph}
  {inputs outputs : Record} {σ : Assignment} {table table' : ValueTable} {s : Step} {k : Nat}
  {halt : Halt} {e : Error} {entries : List (String × Value)}

@[simp] theorem result_logValues (e : Event) : (ev.logValues e).result = .ok () := by
  rw [logValues]
  split <;> rfl

/-- A step gives what its action gives for its arguments. -/
theorem result_evaluateStep (h : ev.arguments A g table s = .ok entries) :
    (ev.evaluateStep nested d A g table s).result =
      (nested s.action (.ofList entries)).result := by
  rw [evaluateStep, h]
  simp only [Run.result_bind, result_expect, result_logValues, Run.result_log]
  show ((nested s.action (.ofList entries)).result >>= fun outputs => .ok outputs) = _
  cases (nested s.action (.ofList entries)).result <;> rfl

theorem result_evaluateStep_of_error (h : ev.arguments A g table s = .error e) :
    (ev.evaluateStep nested d A g table s).result = .error (.failed e) := by
  rw [evaluateStep, h]
  rfl

theorem evaluateSteps_append (l l' : List Step) (table : ValueTable) :
    ev.evaluateSteps nested d A g (l ++ l') table =
      ev.evaluateSteps nested d A g l table >>= ev.evaluateSteps nested d A g l' := by
  induction l generalizing table with
  | nil => rw [List.nil_append, evaluateSteps, pure_bind]
  | cons s rest ih => simp only [List.cons_append, evaluateSteps, ih, bind_assoc]

/-- The steps before one of them are evaluated first. -/
theorem evaluateSteps_split (hs : g.steps[k]? = some s) (table : ValueTable) :
    ev.evaluateSteps nested d A g g.steps table =
      ev.evaluateSteps nested d A g (g.steps.take k) table >>=
        ev.evaluateSteps nested d A g (s :: g.steps.drop (k + 1)) := by
  obtain ⟨hk, rfl⟩ := List.getElem?_eq_some_iff.1 hs
  rw [← evaluateSteps_append, ← List.drop_eq_getElem_cons hk, List.take_append_drop]

theorem evaluateSteps_singleton (s : Step) (table : ValueTable) :
    (ev.evaluateSteps nested d A g [s] table).result =
      (ev.evaluateStep nested d A g table s).result >>= fun outputs =>
        (table.enter s.action .outward (fun i => .stepOutlet ⟨s.ordinal, i⟩)
          outputs.entries).mapError .failed := by
  simp only [evaluateSteps, Run.result_bind, result_expect, Run.result_pure]
  congr 1
  funext outputs
  cases table.enter s.action .outward (fun i => .stepOutlet ⟨s.ordinal, i⟩) outputs.entries <;>
    rfl

theorem evaluateSteps_take_succ (hs : g.steps[k]? = some s) (table : ValueTable) :
    (ev.evaluateSteps nested d A g (g.steps.take (k + 1)) table).result =
      (ev.evaluateSteps nested d A g (g.steps.take k) table).result >>= fun table =>
        (ev.evaluateSteps nested d A g [s] table).result := by
  rw [List.take_add_one, hs, evaluateSteps_append, Run.result_bind]
  rfl

/-- What nested evaluations give. -/
def Gives (nested : Nested) (a : Action) (args outputs : Record) : Prop :=
  (nested a args).result = .ok outputs

/-- Nested evaluations give records of the outlets. -/
def NamesOutlets (nested : Nested) : Prop :=
  ∀ a args outputs, Gives nested a args outputs → outputs.keys = a.outlets.names

section

variable (hwf : g.WellFormed A) (hkeys : inputs.keys = A.inlets.names)

include hwf hkeys

/-- A step that gives what the assignment says adds it to the table. -/
theorem evaluateStep_ok (h : table.Holds g inputs σ k) (hs : g.steps[k]? = some s)
    (horder : g.InOrderAt k) {args : Record}
    (hargs : σ.arguments? ev.context g inputs s = some args)
    (hgives : Gives nested s.action args (σ.outputs s)) :
    ∃ table', (ev.evaluateSteps nested d A g [s] table).result = .ok table' ∧
      table'.Holds g inputs σ (k + 1) := by
  obtain ⟨entries, hentries, hentries'⟩ := h.arguments hkeys hwf ev hs (horder s hs)
  obtain rfl := Option.some.inj (hargs.symm.trans hentries')
  obtain ⟨table', henter, hholds⟩ := h.exists_enter hs (hwf.numbered k s hs).1
  refine ⟨table', ?_, hholds⟩
  rw [evaluateSteps_singleton, ev.result_evaluateStep hentries, hgives]
  show (table.enter s.action .outward _ (σ.outputs s).entries).mapError Halt.failed = _
  rw [henter]
  rfl

/-- Steps that give what the assignment says leave a table that holds it. -/
theorem exists_table_of_solvesBelow (h : table.Holds g inputs σ 0)
    (horder : ∀ j < k, g.InOrderAt j)
    (hsolves : σ.SolvesBelow ev.context g inputs (Gives nested) k) :
    ∃ table', (ev.evaluateSteps nested d A g (g.steps.take k) table).result = .ok table' ∧
      table'.Holds g inputs σ k := by
  induction k with
  | zero => exact ⟨table, rfl, h⟩
  | succ k ih =>
    obtain ⟨hbefore, hstep⟩ := Assignment.solvesBelow_succ.1 hsolves
    obtain ⟨table', htable', hholds⟩ := ih (fun j hj => horder j (Nat.lt_succ_of_lt hj)) hbefore
    by_cases hk : k < g.steps.length
    · have hs := List.getElem?_eq_getElem hk
      obtain ⟨args, hargs, hgives⟩ := hstep _ hs
      rw [evaluateSteps_take_succ ev hs, htable']
      exact evaluateStep_ok ev hwf hkeys hholds hs (horder k (Nat.lt_succ_self k)) hargs hgives
    · -- There is no further step.
      have hnone (port : StepPort) (hhas : g.HasPort .outward port) : port.step < k := by
        have := hhas.step_lt
        omega
      rw [List.take_of_length_le (by omega)]
      rw [List.take_of_length_le (by omega)] at htable'
      exact ⟨table', htable', hholds.inlets, fun port _ hhas =>
        hholds.produced port (hnone port hhas) hhas, fun port hport =>
        hholds.pending port (by omega)⟩

/-- So the table that such steps leave holds the assignment. -/
theorem holds_of_evaluateSteps (h : table.Holds g inputs σ 0) (horder : ∀ j < k, g.InOrderAt j)
    (hsolves : σ.SolvesBelow ev.context g inputs (Gives nested) k)
    (htable : (ev.evaluateSteps nested d A g (g.steps.take k) table).result = .ok table') :
    table'.Holds g inputs σ k := by
  obtain ⟨left, hleft, hholds⟩ := exists_table_of_solvesBelow ev hwf hkeys h horder hsolves
  obtain rfl := Except.ok.inj (htable.symm.trans hleft)
  exact hholds

/-- A step that reads something late fails; one that reads nothing late fails if its action
    does, and its outputs are those that its action gives. -/
theorem evaluateStep_cases (h : table.Holds g inputs σ k) (hs : g.steps[k]? = some s) :
    (g.InOrderAt k ∧ ∃ args, σ.arguments? ev.context g inputs s = some args ∧
      (ev.evaluateStep nested d A g table s).result = (nested s.action args).result) ∨
    ∃ i port, g.ReadsLate s i port ∧ (∀ j < i, ∀ port, ¬g.ReadsLate s j port) ∧
      (ev.evaluateStep nested d A g table s).result =
        .error (.failed (.missingValue A.code (g.describeSource A (.stepOutlet port)))) := by
  by_cases horder : g.InOrderAt k
  · obtain ⟨entries, hentries, hargs⟩ := h.arguments hkeys hwf ev hs (horder s hs)
    exact .inl ⟨horder, _, hargs, ev.result_evaluateStep hentries⟩
  · obtain ⟨t, i, port, ht, hlate, hfirst⟩ := Graph.exists_readsLate_of_not_inOrderAt horder
    obtain rfl := Option.some.inj (hs.symm.trans ht)
    exact .inr ⟨i, port, hlate, hfirst, ev.result_evaluateStep_of_error
      (h.arguments_of_readsLate hkeys hwf ev hs hlate hfirst)⟩

variable (hnested : NamesOutlets nested)

include hnested

/-- A step that succeeds is in order, and the assignment is extended by what it gives. -/
theorem exists_solvesBelow_succ (h : table.Holds g inputs σ k) (hs : g.steps[k]? = some s)
    (horder : ∀ j < k, g.InOrderAt j)
    (hsolves : σ.SolvesBelow ev.context g inputs (Gives nested) k)
    (hstep : (ev.evaluateStep nested d A g table s).result = .ok outputs) :
    (∀ j < k + 1, g.InOrderAt j) ∧
      ∃ τ : Assignment, τ.SolvesBelow ev.context g inputs (Gives nested) (k + 1) := by
  rcases evaluateStep_cases ev hwf hkeys h hs with ⟨horderAt, args, hargs, hresult⟩ |
    ⟨i, port, -, -, hresult⟩
  · rw [hresult] at hstep
    have horder' : ∀ j < k + 1, g.InOrderAt j := Nat.forall_lt_succ_right.2 ⟨horder, horderAt⟩
    exact ⟨horder', _, hsolves.set hwf (fun j hj => horder' j (Nat.lt_succ_of_le hj)) hs hargs
      (hnested _ _ _ hstep) hstep⟩
  · rw [hresult] at hstep
    cases hstep

/-- Steps that succeed are in order, and some assignment says what they give. -/
theorem exists_solvesBelow_of_table (h : ∀ σ, table.Holds g inputs σ 0)
    (htable : (ev.evaluateSteps nested d A g (g.steps.take k) table).result = .ok table') :
    (∀ j < k, g.InOrderAt j) ∧
      ∃ σ : Assignment, σ.SolvesBelow ev.context g inputs (Gives nested) k := by
  induction k generalizing table' with
  | zero =>
    exact ⟨fun j hj => absurd hj (Nat.not_lt_zero j), default, Assignment.solvesBelow_zero⟩
  | succ k ih =>
    rcases hs : g.steps[k]? with - | s
    · -- There is no further step.
      have hlen := List.getElem?_eq_none_iff.1 hs
      rw [List.take_of_length_le (by omega)] at htable
      rw [List.take_of_length_le hlen] at ih
      obtain ⟨horder, σ, hsolves⟩ := ih htable
      refine ⟨Nat.forall_lt_succ_right.2 ⟨horder, Graph.inOrderAt_of_length_le hlen⟩, σ,
        Assignment.solvesBelow_succ.2 ⟨hsolves, fun t ht => ?_⟩⟩
      rw [hs] at ht
      cases ht
    · -- The table before the step holds the assignment that the step extends.
      rw [evaluateSteps_take_succ ev hs, Except.bind_eq_ok] at htable
      obtain ⟨before, hbefore, hstep⟩ := htable
      obtain ⟨horder, σ, hsolves⟩ := ih hbefore
      have hholds := holds_of_evaluateSteps ev hwf hkeys (h σ) horder hsolves hbefore
      rw [evaluateSteps_singleton, Except.bind_eq_ok] at hstep
      obtain ⟨outputs, houtputs, -⟩ := hstep
      exact exists_solvesBelow_succ ev hwf hkeys hnested hholds hs horder hsolves houtputs

/-- The computation of an algorithm ends at its step `k`: the steps before it give what some
    assignment says, and its action ends without outputs, or it reads something late. -/
inductive EndsAt (nested : Nested) (A : Action) (g : Graph) (inputs : Record) (k : Nat) :
    Halt → Prop
  /-- The action ends without outputs. -/
  | nested {s : Step} {σ : Assignment} {args : Record} {halt : Halt}
    (hs : g.steps[k]? = some s) (horder : ∀ j ≤ k, g.InOrderAt j)
    (hsolves : σ.SolvesBelow ev.context g inputs (Gives nested) k)
    (hargs : σ.arguments? ev.context g inputs s = some args)
    (hhalt : (nested s.action args).result = .error halt) : EndsAt nested A g inputs k halt
  /-- An inlet, the first to do so, reads something late. -/
  | late {s : Step} {σ : Assignment} {i : Nat} {port : StepPort}
    (hs : g.steps[k]? = some s) (horder : ∀ j < k, g.InOrderAt j)
    (hsolves : σ.SolvesBelow ev.context g inputs (Gives nested) k)
    (hlate : g.ReadsLate s i port) (hfirst : ∀ j < i, ∀ port, ¬g.ReadsLate s j port) :
    EndsAt nested A g inputs k
      (.failed (.missingValue A.code (g.describeSource A (.stepOutlet port))))

/-- A step that ends without outputs ends the computation. -/
theorem endsAt_of_evaluateSteps_singleton (h : table.Holds g inputs σ k)
    (hs : g.steps[k]? = some s) (horder : ∀ j < k, g.InOrderAt j)
    (hsolves : σ.SolvesBelow ev.context g inputs (Gives nested) k)
    (hstep : (ev.evaluateSteps nested d A g [s] table).result = .error halt) :
    ev.EndsAt nested A g inputs k halt := by
  rw [evaluateSteps_singleton, Except.bind_eq_error] at hstep
  rcases evaluateStep_cases ev hwf hkeys h hs with ⟨horderAt, args, hargs, hresult⟩ |
    ⟨i, port, hlate, hfirst, hresult⟩
  · rw [hresult] at hstep
    rcases hstep with hhalt | ⟨outputs, houtputs, henter⟩
    · refine .nested hs (fun j hj => ?_) hsolves hargs hhalt
      exact Nat.forall_lt_succ_right.2 ⟨horder, horderAt⟩ j (Nat.lt_succ_of_le hj)
    · -- What the action gives can always be entered.
      obtain ⟨table', htable', -⟩ := ValueTable.exists_enter table .outward
        (hnested _ _ _ houtputs) (ValueTable.stepOutlet_injective s.ordinal)
      rw [htable'] at henter
      cases henter
  · rw [hresult] at hstep
    rcases hstep with hhalt | ⟨outputs, houtputs, -⟩
    · obtain rfl := Except.error.inj hhalt
      exact .late hs horder hsolves hlate hfirst
    · cases houtputs

/-- If steps do not succeed, one of them ends the computation. -/
theorem exists_endsAt_of_evaluateSteps (h : ∀ σ, table.Holds g inputs σ 0)
    (herror : (ev.evaluateSteps nested d A g (g.steps.take k) table).result = .error halt) :
    ∃ j < k, ev.EndsAt nested A g inputs j halt := by
  induction k with
  | zero => cases herror
  | succ k ih =>
    have hbefore (herror : (ev.evaluateSteps nested d A g (g.steps.take k) table).result =
        .error halt) : ∃ j < k + 1, ev.EndsAt nested A g inputs j halt := by
      obtain ⟨j, hj, hends⟩ := ih herror
      exact ⟨j, Nat.lt_succ_of_lt hj, hends⟩
    rcases hs : g.steps[k]? with - | s
    · have hlen := List.getElem?_eq_none_iff.1 hs
      rw [List.take_of_length_le (by omega)] at herror
      rw [List.take_of_length_le hlen] at hbefore
      exact hbefore herror
    · rw [evaluateSteps_take_succ ev hs, Except.bind_eq_error] at herror
      rcases herror with herror | ⟨before, hbefore', hstep⟩
      · exact hbefore herror
      · obtain ⟨horder, σ, hsolves⟩ :=
          exists_solvesBelow_of_table ev hwf hkeys hnested h hbefore'
        have hholds := holds_of_evaluateSteps ev hwf hkeys (h σ) horder hsolves hbefore'
        exact ⟨k, Nat.lt_succ_self k,
          endsAt_of_evaluateSteps_singleton ev hwf hkeys hnested hholds hs horder hsolves hstep⟩

omit hnested in
theorem evaluateSteps_of_endsAt (h : ∀ σ, table.Holds g inputs σ 0)
    (hends : ev.EndsAt nested A g inputs k halt) :
    (ev.evaluateSteps nested d A g g.steps table).result = .error halt := by
  have hsplit {s : Step} {σ : Assignment} (hs : g.steps[k]? = some s)
      (horder : ∀ j < k, g.InOrderAt j)
      (hsolves : σ.SolvesBelow ev.context g inputs (Gives nested) k)
      (hstep : ∀ table, table.Holds g inputs σ k →
        (ev.evaluateStep nested d A g table s).result = .error halt) :
      (ev.evaluateSteps nested d A g g.steps table).result = .error halt := by
    obtain ⟨before, hbefore, hholds⟩ :=
      exists_table_of_solvesBelow ev hwf hkeys (h σ) horder hsolves
    rw [evaluateSteps_split ev hs, Run.result_bind, hbefore]
    show (ev.evaluateSteps nested d A g (s :: g.steps.drop (k + 1)) before).result = _
    rw [evaluateSteps, Run.result_bind, hstep before hholds]
    rfl
  -- Either way the steps before leave a table that decides what the step does.
  cases hends with
  | nested hs horder hsolves hargs hhalt =>
    refine hsplit hs (fun j hj => horder j (Nat.le_of_lt hj)) hsolves fun before hholds => ?_
    obtain ⟨entries, hentries, hargs'⟩ :=
      hholds.arguments hkeys hwf ev hs (horder k (Nat.le_refl k) _ hs)
    obtain rfl := Option.some.inj (hargs.symm.trans hargs')
    rw [ev.result_evaluateStep hentries, hhalt]
  | late hs horder hsolves hlate hfirst =>
    exact hsplit hs horder hsolves fun before hholds => ev.result_evaluateStep_of_error
      (hholds.arguments_of_readsLate hkeys hwf ev hs hlate hfirst)

/-- An algorithm is computed exactly if it is in order and some assignment agrees with what
    every step gives; its results are those of the assignment. -/
theorem evaluateGraph_eq_ok_iff :
    (ev.evaluateGraph nested d A g inputs).result = .ok outputs ↔
      g.InOrder ∧ ∃ σ : Assignment,
        σ.SolvesBelow ev.context g inputs (Gives nested) g.steps.length ∧
          σ.results? g inputs A = some outputs := by
  obtain ⟨start, hstart, hholds⟩ := ValueTable.exists_holds_start hkeys g
  have hresults {σ : Assignment} {table : ValueTable}
      (h : table.Holds g inputs σ g.steps.length) :
      ((expect (results A g table)).result >>= fun entries =>
          (.ok (.ofList entries) : Except Halt Record)) = .ok outputs ↔
        σ.results? g inputs A = some outputs := by
    obtain ⟨entries, hentries, hresults⟩ := h.results hkeys hwf rfl
    rw [hentries, hresults]
    exact ⟨fun heq => congrArg some (Except.ok.inj heq),
      fun heq => congrArg Except.ok (Option.some.inj heq)⟩
  rw [evaluateGraph, hstart]
  simp only [Run.result_bind, Run.result_pure]
  show ((ev.evaluateSteps nested d A g g.steps start).result >>= fun table => _) = _ ↔ _
  rw [Except.bind_eq_ok]
  constructor
  · rintro ⟨table, htable, heq⟩
    rw [← List.take_length (l := g.steps)] at htable
    obtain ⟨horder, σ, hsolves⟩ := exists_solvesBelow_of_table ev hwf hkeys hnested hholds htable
    have hholds' := holds_of_evaluateSteps ev hwf hkeys (hholds σ) horder hsolves htable
    refine ⟨fun k => ?_, σ, hsolves, (hresults hholds').1 heq⟩
    exact (Nat.lt_or_ge k g.steps.length).elim (horder k) Graph.inOrderAt_of_length_le
  · rintro ⟨horder, σ, hsolves, heq⟩
    obtain ⟨table, htable, hholds'⟩ :=
      exists_table_of_solvesBelow ev hwf hkeys (hholds σ) (fun j _ => horder j) hsolves
    rw [List.take_length] at htable
    exact ⟨table, htable, (hresults hholds').2 heq⟩

/-- An algorithm is computed to no end exactly if one of its steps ends the computation. -/
theorem evaluateGraph_eq_error_iff :
    (ev.evaluateGraph nested d A g inputs).result = .error halt ↔
      ∃ k, ev.EndsAt nested A g inputs k halt := by
  obtain ⟨start, hstart, hholds⟩ := ValueTable.exists_holds_start hkeys g
  rw [evaluateGraph, hstart]
  simp only [Run.result_bind, Run.result_pure]
  show ((ev.evaluateSteps nested d A g g.steps start).result >>= fun table => _) = _ ↔ _
  rw [Except.bind_eq_error]
  constructor
  · rintro (herror | ⟨table, htable, heq⟩)
    · rw [← List.take_length (l := g.steps)] at herror
      obtain ⟨k, -, hends⟩ := exists_endsAt_of_evaluateSteps ev hwf hkeys hnested hholds herror
      exact ⟨k, hends⟩
    · -- After all steps, the results are there.
      rw [← List.take_length (l := g.steps)] at htable
      obtain ⟨horder, σ, hsolves⟩ :=
        exists_solvesBelow_of_table ev hwf hkeys hnested hholds htable
      have hholds' := holds_of_evaluateSteps ev hwf hkeys (hholds σ) horder hsolves htable
      obtain ⟨entries, hentries, -⟩ := hholds'.results hkeys hwf rfl
      rw [hentries] at heq
      cases heq
  · rintro ⟨k, hends⟩
    exact .inl (evaluateSteps_of_endsAt ev hwf hkeys hholds hends)

end

end Evaluator

end Dataflow
