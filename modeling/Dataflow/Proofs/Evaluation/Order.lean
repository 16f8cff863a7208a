import Dataflow.Proofs.Evaluation.Errors
import Dataflow.Proofs.Evaluation.Events

/-!
# The order of steps

A build accepts steps in any order, so a step may read what is produced later, and then the
evaluation fails there. Whether this happens is known from the graph alone: an evaluation
that reaches only algorithms in order never lacks a value, and an algorithm that is not in
order always fails, at the latest at its first step that reads something late, and executes
none from there on (`order_decides_missingValue`).

* `Evaluator.from_of_mem_events`: what is nested in an evaluation logs greater depths.
* `Evaluator.exists_step_of_mem_events`: the steps that are executed at a depth.
-/

namespace Dataflow

/-- An event of a step or of a strategy is of the depth `d` or a greater one. -/
def Event.From (d : Nat) : Event → Prop
  | executingStep _ _ _ depth | strategySelected _ _ depth => d ≤ depth
  | _ => True

theorem Event.From.mono {d d' : Nat} {e : Event} (h : e.From d') (hd : d ≤ d') : e.From d := by
  cases e with
  | executingStep code step action depth => exact Nat.le_trans hd h
  | strategySelected action engine depth => exact Nat.le_trans hd h
  | _ => trivial

namespace Evaluator

variable (ev : Evaluator) {nested : Nested} {n d k : Nat} {A : Action} {g : Graph}
  {table : ValueTable} {e : Event} {code action : String}

theorem alike_from (d : Nat) :
    Alike (fun _ x _ => ∀ e ∈ x.events, e.From d) ev ev d d :=
  ev.alike_events (fun _ _ _ => Nat.le_refl d) (fun _ _ _ => Nat.le_refl d)
    (fun _ _ => trivial) fun _ _ => trivial

/-- An evaluation logs no smaller depth than its own. -/
theorem from_of_mem_events (n d : Nat) (a : Action) (inputs : Record) :
    ∀ e ∈ (ev.evaluateAction n d a inputs).events, e.From d := by
  induction n generalizing d a inputs with
  | zero =>
    intro e he
    cases he
  | succ n ih =>
    have hnested : RelatedNested (fun _ x _ => ∀ e ∈ x.events, e.From d)
        (ev.evaluateAction n (d + 1)) (ev.evaluateAction n (d + 1)) := by
      intro b args e he
      exact (ih (d + 1) b args e he).mono (Nat.le_succ d)
    exact (ev.alike_from d).evaluateAction_succ hnested a inputs

section

variable (hdeeper : ∀ b args, ∀ e ∈ (nested b args).events, e.From (d + 1))

include hdeeper

theorem ordinal_of_mem_events {s : Step}
    (h : .executingStep code k action d ∈ (ev.evaluateStep nested d A g table s).events) :
    s.ordinal = k := by
  rw [evaluateStep] at h
  rcases Run.mem_events_bind.1 h with h | ⟨entries, -, h⟩
  · cases h
  · rcases Run.mem_events_bind.1 h with h | ⟨_, -, h⟩
    · cases List.mem_singleton.1 h
      rfl
    · -- Values are logged by events of other kinds, what is nested by events of other depths.
      rcases Run.mem_events_bind.1 h with h | ⟨_, -, h⟩
      · cases ev.eq_of_mem_events_logValues h
      · rcases Run.mem_events_bind.1 h with h | ⟨outputs, -, h⟩
        · exact absurd (hdeeper _ _ _ h) (Nat.not_succ_le_self d)
        · rcases Run.mem_events_bind.1 h with h | ⟨_, -, h⟩
          · cases ev.eq_of_mem_events_logValues h
          · cases h

/-- What is executed at the depth of the steps is one of them. -/
theorem exists_step_of_mem_events {l : List Step}
    (h : .executingStep code k action d ∈ (ev.evaluateSteps nested d A g l table).events) :
    ∃ s ∈ l, s.ordinal = k := by
  induction l generalizing table with
  | nil => cases h
  | cons s rest ih =>
    rw [evaluateSteps] at h
    rcases Run.mem_events_bind.1 h with h | ⟨outputs, -, h⟩
    · exact ⟨s, List.mem_cons_self, ordinal_of_mem_events ev hdeeper h⟩
    · rcases Run.mem_events_bind.1 h with h | ⟨table', -, h⟩
      · cases h
      · obtain ⟨t, ht, hk⟩ := ih h
        exact ⟨t, List.mem_cons_of_mem s ht, hk⟩

/-- A computation executes no step from the first on that reads something late. -/
theorem lt_of_mem_events_evaluateGraph (hwf : g.WellFormed A) {inputs : Record}
    (hkeys : inputs.keys = A.inlets.names) (hnested : NamesOutlets nested)
    (hlate : ¬g.InOrderAt k) {ordinal : Nat}
    (h : .executingStep code ordinal action d ∈
      (ev.evaluateGraph nested d A g inputs).events) : ordinal < k := by
  -- Only the walk over the steps logs anything; it is cut at the step `k`.
  obtain ⟨start, hstart, hholds⟩ := ValueTable.exists_holds_start hkeys g
  obtain ⟨s, i, port, hs, hlate, hfirst⟩ := Graph.exists_readsLate_of_not_inOrderAt hlate
  have hmem : .executingStep code ordinal action d ∈
      (ev.evaluateSteps nested d A g g.steps start).events := by
    rw [evaluateGraph, hstart] at h
    rcases Run.mem_events_bind.1 h with h | ⟨table, htable, h⟩
    · cases h
    · obtain rfl : start = table := Except.ok.inj htable
      rcases Run.mem_events_bind.1 h with h | ⟨_, -, h⟩
      · exact h
      · rcases Run.mem_events_bind.1 h with h | ⟨_, -, h⟩ <;> cases h
  rw [evaluateSteps_split ev hs] at hmem
  rcases Run.mem_events_bind.1 hmem with h | ⟨before, hbefore, h⟩
  · -- A step before `k` is executed.
    obtain ⟨t, ht, rfl⟩ := exists_step_of_mem_events ev hdeeper h
    obtain ⟨j, hj⟩ := List.getElem?_of_mem ht
    rw [List.getElem?_take] at hj
    split at hj
    · next hlt => exact (hwf.numbered j t hj).1 ▸ hlt
    · cases hj
  · -- The step `k` fails before it is executed.
    obtain ⟨horder, σ, hsolves⟩ := exists_solvesBelow_of_table ev hwf hkeys hnested hholds hbefore
    have hholds' := holds_of_evaluateSteps ev hwf hkeys (hholds σ) horder hsolves hbefore
    rw [evaluateSteps, evaluateStep, hholds'.arguments_of_readsLate hkeys hwf ev hs hlate hfirst]
      at h
    rcases Run.mem_events_bind.1 h with h | ⟨_, hresult, -⟩
    · rcases Run.mem_events_bind.1 h with h | ⟨_, hresult, -⟩
      · cases h
      · cases hresult
    · cases hresult

end

/-- An evaluation of an algorithm, at whatever depth, executes none of its steps from the
    first on that reads something late. -/
theorem lt_of_mem_events (hwf : g.WellFormed A) (hg : A.graph = some g)
    (hlate : ¬g.InOrderAt k) {inputs : Record} {ordinal : Nat}
    (h : .executingStep code ordinal action d ∈ (ev.evaluateAction n d A inputs).events) :
    ordinal < k := by
  cases n with
  | zero => cases h
  | succ n =>
    rw [evaluateAction] at h
    rcases Run.mem_events_bind.1 h with h | ⟨validated, hinputs, h⟩
    · cases h
    · rcases Run.mem_events_bind.1 h with h | ⟨results, -, h⟩
      · rw [ev.compute_of_graph hg] at h
        exact lt_of_mem_events_evaluateGraph ev (ev.from_of_mem_events n (d + 1)) hwf
          (Action.keys_of_validate (expect_eq_ok.1 hinputs))
          (ev.namesOutlets_evaluateAction n (d + 1)) hlate h
      · cases h

/-- The evaluation of an action executes what its evaluation at the depth `0` does. -/
theorem mem_events_evaluateAction {limit ordinal : Nat} {inputs : Record}
    (h : .executingStep code ordinal action d ∈ (ev.evaluate limit A inputs).events) :
    .executingStep code ordinal action d ∈ (ev.evaluateAction limit 0 A inputs).events := by
  rcases ev.mem_events_evaluate h with ⟨_, _, h⟩ | h | ⟨_, _, h⟩
  · cases h
  · exact h
  · cases h

/-- When the inputs are valid and the steps before succeed, an algorithm fails for what is
    read late. -/
theorem returns_missingValue (hwf : g.WellFormed A) (hg : A.graph = some g)
    (horder : ∀ j < k, g.InOrderAt j) {s : Step} {i : Nat} {port : StepPort}
    (hs : g.steps[k]? = some s) (hlate : g.ReadsLate s i port)
    (hfirst : ∀ j < i, ∀ port, ¬g.ReadsLate s j port) {inputs validated : Record}
    (hinputs : A.validate .inward (ev.inject A inputs) = .ok validated) {σ : Assignment}
    (hsolves : σ.SolvesBelow ev.context g validated ev.Succeeds k) :
    ev.Returns A inputs
      (.error (.missingValue A.code (g.describeSource A (.stepOutlet port)))) := by
  obtain ⟨n, hn⟩ := hsolves.exists_level
  exact returns_error_of_endsAt hwf hg hinputs
    (.late hs horder (hn n (Nat.le_refl n) 1) hlate hfirst)

end Evaluator

/-- If every algorithm that an action reaches is built and in order, no evaluation of the
    action lacks a value. A built algorithm that is not in order never succeeds: none of its
    steps is executed from the first on that reads something late, and when its inputs are
    valid and the steps before that one succeed, what is missing is the source of the first
    inlet that reads it late. -/
theorem order_decides_missingValue :
    (∀ (ev : Evaluator) (a : Action),
      (∀ b g, ev.catalog.Reaches a b → b.graph = some g → b.Built ∧ g.InOrder) →
      ∀ inputs e, ev.Returns a inputs (.error e) → ∀ code port, e ≠ .missingValue code port) ∧
    ∀ (A : Action) (g : Graph) (k : Nat), A.Built → A.graph = some g →
      (∀ j < k, g.InOrderAt j) → ¬g.InOrderAt k →
      ∃ s i port, g.steps[k]? = some s ∧ g.ReadsLate s i port ∧
        (∀ j < i, ∀ port, ¬g.ReadsLate s j port) ∧
        ∀ (ev : Evaluator) (inputs : Record),
          (∀ outputs, ¬ev.Returns A inputs (.ok outputs)) ∧
          (∀ limit code ordinal action, .executingStep code ordinal action 0 ∈
            (ev.evaluate limit A inputs).events → ordinal < k) ∧
          (∀ n d code ordinal action, .executingStep code ordinal action d ∈
            (ev.evaluateAction n d A inputs).events → ordinal < k) ∧
          ∀ validated σ, A.validate .inward (ev.inject A inputs) = .ok validated →
            Assignment.SolvesBelow σ ev.context g validated ev.Succeeds k →
            ev.Returns A inputs
              (.error (.missingValue A.code (g.describeSource A (.stepOutlet port)))) := by
  constructor
  · -- Such an error is a late read, and there is none.
    intro ev a hreach inputs e h code port he
    rcases h.error_cases fun b g hb hg => (hreach b g hb hg).1.wellFormed_of_graph hg with
      hown | ⟨b, hb, hlate⟩
    · rw [he] at hown
      exact hown
    · obtain ⟨hg, hs, hlate⟩ := hlate
      obtain ⟨k, hk⟩ := List.getElem?_of_mem hs
      exact (hreach b _ hb hg).2 k _ hk _ _ hlate
  · intro A g k hbuilt hg horder hk
    have hwf := hbuilt.wellFormed_of_graph hg
    obtain ⟨s, i, port, hs, hlate, hfirst⟩ := Graph.exists_readsLate_of_not_inOrderAt hk
    refine ⟨s, i, port, hs, hlate, hfirst, fun ev inputs =>
      ⟨fun outputs hreturns => ?_, fun limit code ordinal action h => ?_,
        fun n d code ordinal action h => ev.lt_of_mem_events hwf hg hk h,
        fun validated σ hinputs hsolves => ?_⟩⟩
    · exact hk (((Evaluator.succeeds_iff hwf hg).1 hreturns).1 k)
    · exact ev.lt_of_mem_events hwf hg hk (ev.mem_events_evaluateAction h)
    · exact ev.returns_missingValue hwf hg horder hs hlate hfirst hinputs hsolves

/-! ## A step that reads late -/

namespace Relay

/-- The steps of the relay have no strategy that delegates. -/
theorem not_calls {a b : Action} (h : a = echo ∨ a = join) : ¬catalog.Calls a b := by
  rintro (⟨hg, -⟩ | ⟨-, hs, htarget⟩)
  · rcases h with rfl | rfl <;> cases hg
  · rcases h with rfl | rfl <;>
      · rw [List.mem_singleton.1 hs] at htarget
        cases htarget

/-- The relay reaches its steps, which are plain. -/
theorem reaches {b : Action} (h : catalog.Reaches relay b) : b = relay ∨ b = echo ∨ b = join := by
  induction h with
  | refl => exact .inl rfl
  | tail _ hcalls ih =>
    rcases ih with rfl | hleaf
    · cases hcalls with
      | step hg hs =>
        cases hg
        rcases List.mem_cons.1 hs with rfl | hs
        · exact .inr (.inl rfl)
        · rw [List.mem_singleton.1 hs]
          exact .inr (.inr rfl)
      | delegate hplain => cases hplain
    · exact absurd hcalls (not_calls hleaf)

theorem built_of_reaches (b : Action) (g : Graph) (h : catalog.Reaches relay b)
    (hg : b.graph = some g) : b.Built ∧ g.InOrder := by
  rcases reaches h with rfl | rfl | rfl
  · cases hg
    exact ⟨built, inOrder⟩
  · cases hg
  · cases hg

/-- A builder whose second step is an echo of the third. -/
def lateBuilder : Builder.Fallible Produced := do
  let a ← Builder.inlet (.code "a")
  let first ← Builder.invoke echo [.port a] []
  let second ← Builder.place echo
  let third ← Builder.invoke echo [.step first] []
  Builder.connect (.step third) (← second.inlet (.code "a"))
  return .single (.step second)

/-- The graph of that builder. -/
def lateGraph : Graph where
  steps := [⟨"Relay", 0, echo⟩, ⟨"Relay", 1, echo⟩, ⟨"Relay", 2, echo⟩]
  binds := .ofList [(.stepInlet ⟨0, 0⟩, .inlet 0), (.stepInlet ⟨2, 0⟩, .stepOutlet ⟨0, 0⟩),
    (.stepInlet ⟨1, 0⟩, .stepOutlet ⟨2, 0⟩), (.outlet 0, .stepOutlet ⟨1, 0⟩)]

/-- The relay with that graph. -/
def lateRelay : Action := { shell with graph := some lateGraph }

theorem lateBuilt : lateRelay.Built := by
  refine ⟨∅, 0, "Relay", [⟨"a", .any⟩], [⟨"res", .any⟩], lateBuilder, fun s hs => ?_, rfl⟩
  obtain rfl := Except.ok.inj hs
  refine ⟨.port (.inlet (.code "a") rfl), .stepInlet List.mem_cons_self (.index 0) rfl, ?_⟩
  refine ⟨.step (by simp), .stepInlet List.mem_cons_self (.index 0) rfl, ?_⟩
  refine ⟨.step (by simp),
    .stepInlet (List.mem_cons_of_mem _ List.mem_cons_self) (.code "a") rfl, ?_⟩
  intro p hp output ho
  obtain rfl := Except.ok.inj hp
  obtain rfl := List.mem_singleton.1 ho
  exact .step (by simp)

theorem lateInOrderAt (j : Nat) (hj : j < 1) : lateGraph.InOrderAt j := by
  obtain rfl : j = 0 := by omega
  rintro s hs (_ | i) port ⟨-, hsource, -⟩ <;> cases hs <;> cases hsource

theorem lateReads : lateGraph.ReadsLate ⟨"Relay", 1, echo⟩ 0 ⟨2, 0⟩ :=
  ⟨⟨_, rfl, rfl⟩, rfl, by decide⟩

theorem lateNotInOrderAt : ¬lateGraph.InOrderAt 1 := fun h => h _ rfl 0 ⟨2, 0⟩ lateReads

/-- The value that the first step passes on. -/
def lateAssignment : Assignment := fun _ => .json .null

theorem lateSolves : lateAssignment.SolvesBelow evaluator.context lateGraph
    (single "a" .null) evaluator.Succeeds 1 := by
  intro j hj s hs
  obtain rfl : j = 0 := by omega
  cases hs
  exact ⟨single "a" .null, rfl, 1, rfl⟩

end Relay

/-- The relay lacks no value; the one with a late step lacks the outlet of its last step. -/
theorem order_decides_missingValue_relay :
    (∀ inputs e, Relay.evaluator.Returns Relay.relay inputs (.error e) →
      ∀ code port, e ≠ .missingValue code port) ∧
    (∀ outputs, ¬Relay.evaluator.Returns Relay.lateRelay (Relay.single "a" .null) (.ok outputs)) ∧
    (∀ limit code ordinal action, .executingStep code ordinal action 0 ∈
      (Relay.evaluator.evaluate limit Relay.lateRelay (Relay.single "a" .null)).events →
        ordinal < 1) ∧
    Relay.evaluator.Returns Relay.lateRelay (Relay.single "a" .null)
      (.error (.missingValue "Relay" "outlet `res` of step 2 (`Echo`)")) := by
  obtain ⟨s, i, port, hs, hlate, -, hlater⟩ := order_decides_missingValue.2 Relay.lateRelay
    Relay.lateGraph 1 Relay.lateBuilt rfl Relay.lateInOrderAt Relay.lateNotInOrderAt
  obtain ⟨hfails, hexecuted, -, hmissing⟩ := hlater Relay.evaluator (Relay.single "a" .null)
  refine ⟨order_decides_missingValue.1 Relay.evaluator Relay.relay Relay.built_of_reaches,
    hfails, hexecuted, ?_⟩
  -- The only inlet of the step reads the last step.
  obtain ⟨⟨p, hp, -⟩, hsource, -⟩ := hlate
  cases hs
  rcases i with - | i
  · cases hsource
    exact hmissing _ _ rfl Relay.lateSolves
  · cases hp

end Dataflow
