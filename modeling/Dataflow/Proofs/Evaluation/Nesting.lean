import Mathlib.Data.List.MinMax
import Mathlib.Order.Nat
import Dataflow.Proofs.Catalog.History
import Dataflow.Proofs.Evaluation.Composition
import Dataflow.Proofs.Evaluation.Visits

/-!
# How deep evaluations nest

An evaluation nests others in two ways: an algorithm has its steps evaluated, and a plain action
has what its strategy delegates to evaluated. The first way comes to an end by itself, as there
are only so many algorithms inside an algorithm. The second one need not: strategies may delegate
in circles. They do not if actions have *ranks* such that a strategy delegates to nothing but what
consists of plain actions of lower ranks (`Catalog.Ranked`).

A delegation lowers the rank but may lead to an algorithm with a lot inside, and a step has less
inside but may be of the same rank. Both lower the *levels* of an action (`Action.levels`), if a
plain action counts for as many levels as any target in the catalog has algorithms inside each
other, and one more, for its own rank and every lower one (`Catalog.Ranked.levels_lt`). So an
evaluation nests at most that deep (`Evaluator.Visits.depth_le`), and with a greater limit it is
not cut off (`Evaluator.evaluateAction_ne_tooDeep`), whatever the context and the inputs are
(`returns_of_ranked`).
-/

namespace Dataflow

/-! ## Levels of actions -/

namespace Action

variable {a b : Action} {g : Graph} {s : Step} {plain : String → Nat} {m : Nat}

theorem sizeOf_lt_of_step (hg : a.graph = some g) (hs : s ∈ g.steps) :
    sizeOf s.action < sizeOf a := by
  have hmem := List.sizeOf_lt_of_mem hs
  rcases a
  cases hg
  rcases g
  rcases s
  simp only [mk.sizeOf_spec, Graph.mk.sizeOf_spec, Step.mk.sizeOf_spec, Option.some.sizeOf_spec]
    at hmem ⊢
  omega

/-- The levels of an action, given those of the plain actions by their codes: an algorithm has one
    more than the step that has most. -/
def levels (plain : String → Nat) (a : Action) : Nat :=
  match hg : a.graph with
  | none => plain a.code
  | some g => (g.steps.attach.map fun s => s.1.action.levels plain).foldr max 0 + 1
termination_by a
decreasing_by exact sizeOf_lt_of_step hg s.2

theorem levels_of_plain (hplain : a.graph = none) : a.levels plain = plain a.code := by
  rw [levels]
  split
  · rfl
  · next hg =>
    rw [hplain] at hg
    cases hg

theorem levels_of_graph (hg : a.graph = some g) :
    a.levels plain = (g.steps.map fun s => s.action.levels plain).foldr max 0 + 1 := by
  rw [levels]
  split
  · next hplain =>
    rw [hplain] at hg
    cases hg
  · next g' hg' =>
    obtain rfl := Option.some.inj (hg.symm.trans hg')
    rw [← List.attach_map_val (l := g.steps) (f := fun s => s.action.levels plain)]

theorem levels_lt_of_step (hg : a.graph = some g) (hs : s ∈ g.steps) :
    s.action.levels plain < a.levels plain := by
  rw [levels_of_graph hg, Nat.lt_succ_iff]
  exact List.le_max_of_le' 0 (List.mem_map_of_mem hs) (Nat.le_refl _)

/-- What an action consists of: itself, and what the actions of its steps consist of. -/
inductive Contains : Action → Action → Prop
  | self {a : Action} : Contains a a
  | step {a b : Action} {g : Graph} {s : Step} (hg : a.graph = some g) (hs : s ∈ g.steps)
    (h : Contains s.action b) : Contains a b

/-- If plain actions count for levels, an action has no more than it has without them and the most
    that one of its plain actions counts for. -/
theorem levels_le {a : Action} (h : ∀ b, a.Contains b → b.graph = none → plain b.code ≤ m) :
    a.levels plain ≤ a.levels (fun _ => 0) + m := by
  rcases hg : a.graph with - | g
  · rw [levels_of_plain hg]
    exact Nat.le_add_left_of_le (h a .self hg)
  · have hsteps : ∀ s ∈ g.steps, s.action.levels plain ≤ s.action.levels (fun _ => 0) + m :=
      fun s hs => levels_le fun b hb => h b (.step hg hs hb)
    have hmax : (g.steps.map fun s => s.action.levels plain).foldr max 0 ≤
        (g.steps.map fun s => s.action.levels fun _ => 0).foldr max 0 + m := by
      -- The greatest of some numbers is known by a bound on each of them.
      show List.foldr max (⊥ : Nat) _ ≤ _
      refine List.max_le_of_forall_le _ _ fun x hx => ?_
      obtain ⟨s, hs, rfl⟩ := List.mem_map.1 hx
      refine (hsteps s hs).trans (Nat.add_le_add_right ?_ m)
      exact List.le_max_of_le' 0 (List.mem_map_of_mem hs) (Nat.le_refl _)
    rw [levels_of_graph hg, levels_of_graph hg]
    omega
termination_by a
decreasing_by exact sizeOf_lt_of_step hg hs

end Action

/-! ## Ranks -/

namespace Catalog

variable {c : Catalog} {rank : String → Nat} {a b : Action}

/-- The actions that strategies delegate to. -/
def targets (c : Catalog) : List Action :=
  c.implementations.entries.values.flatMap fun engines => engines.values.filterMap fun s =>
    match s.target with
    | .callable _ => none
    | .action target => some target

/-- The most algorithms that are inside each other in an action that a strategy delegates to. -/
def reach (c : Catalog) : Nat := (c.targets.map (Action.levels fun _ => 0)).foldr max 0

/-- Ranks of codes are such that a strategy delegates to nothing but what consists of plain actions
    of ranks lower than that of its own action. -/
def Ranked (c : Catalog) (rank : String → Nat) : Prop :=
  ∀ code, ∀ s ∈ (c.implementations.strategies code).values, ∀ target, s.target = .action target →
    ∀ b, target.Contains b → b.graph = none → rank b.code < rank code

/-- The levels of the plain action with a code: as many as algorithms may be inside each other in a
    target, and one more, for every rank up to its own. -/
def plainLevels (c : Catalog) (rank : String → Nat) (code : String) : Nat :=
  (rank code + 1) * (c.reach + 1)

theorem mem_targets {code : String} {s : Strategy} {target : Action}
    (hs : s ∈ (c.implementations.strategies code).values) (htarget : s.target = .action target) :
    target ∈ c.targets := by
  obtain ⟨engines, hentry, hs⟩ := StrategyPool.exists_of_mem_strategies hs
  have hengines : engines ∈ c.implementations.entries.values := List.mem_map_of_mem hentry
  refine List.mem_flatMap.2 ⟨engines, hengines, List.mem_filterMap.2 ⟨s, hs, ?_⟩⟩
  rw [htarget]

theorem levels_le_reach (h : a ∈ c.targets) : a.levels (fun _ => 0) ≤ c.reach :=
  List.le_max_of_le' 0 (List.mem_map_of_mem h) (Nat.le_refl _)

/-- A call leads to fewer levels: to one of the levels of an algorithm, or to a target, whose plain
    actions have lower ranks. -/
theorem Ranked.levels_lt (h : c.Ranked rank) (hcalls : c.Calls a b) :
    b.levels (c.plainLevels rank) < a.levels (c.plainLevels rank) := by
  cases hcalls with
  | step hg hs => exact Action.levels_lt_of_step hg hs
  | delegate hplain hs htarget =>
    -- The levels of lower ranks and those of the algorithms in the target make up one rank more.
    have hlower (b' : Action) (hb' : b.Contains b') (hplain' : b'.graph = none) :
        c.plainLevels rank b'.code ≤ rank a.code * (c.reach + 1) :=
      Nat.mul_le_mul_right _ (h _ _ hs _ htarget b' hb' hplain')
    have hreach := levels_le_reach (mem_targets hs htarget)
    rw [Action.levels_of_plain hplain, plainLevels, Nat.succ_mul]
    have hlevels := Action.levels_le hlower
    omega

end Catalog

/-! ## What is nested -/

namespace Evaluator

variable {ev : Evaluator} {nested : Nested} {n d : Nat} {a b A : Action} {inputs args : Record}
  {role : Role} {v w : Visit} {g : Graph} {measure : Action → Nat}

/-- A strategy that is chosen is one that an action calls by. -/
theorem calls_of_target {s : Strategy} (hplain : a.graph = none) (hs : ev.chooseStrategy a = .ok s)
    (htarget : s.target = .action b) : ev.catalog.Calls a b :=
  .delegate hplain (mem_strategies_of_chosen? (chooseStrategy_eq_ok_iff.1 hs)) htarget

/-- What is nested in an evaluation is called. -/
theorem Nests.calls (h : ev.Nests nested d a inputs role b args) : ev.catalog.Calls a b := by
  cases h with
  | step hg hs => exact .step hg (List.mem_of_getElem? hs)
  | delegation hplain hs htarget => exact calls_of_target hplain hs htarget

/-- If calls lower a measure, a visit is deeper by no more than the measure that is lost on the
    way. -/
theorem Visits.depth_le (hmeasure : ∀ a b, ev.catalog.Calls a b → measure b < measure a)
    (h : ev.Visits n v w) : w.depth + measure w.action ≤ v.depth + measure v.action := by
  induction h with
  | self => exact Nat.le_refl _
  | nested _ hnests _ ih =>
    have := hmeasure _ _ hnests.calls
    dsimp only at ih
    omega

/-- Steps are cut off where the action of one of them is. -/
theorem tooDeep_of_evaluateSteps {l : List Step} {table : ValueTable}
    (h : (ev.evaluateSteps nested d A g l table).result = .error .tooDeep) :
    ∃ s ∈ l, ∃ args, (nested s.action args).result = .error .tooDeep := by
  induction l generalizing table with
  | nil => cases h
  | cons s rest ih =>
    simp only [evaluateSteps, Run.result_bind, Except.bind_eq_error, expect_eq_error] at h
    rcases h with h | ⟨outputs, -, ⟨e, -, hfailed⟩ | ⟨table', -, h⟩⟩
    · cases hentries : ev.arguments A g table s with
      | error e =>
        rw [ev.result_evaluateStep_of_error hentries] at h
        cases h
      | ok entries =>
        rw [ev.result_evaluateStep hentries] at h
        exact ⟨s, List.mem_cons_self, _, h⟩
    · cases hfailed
    · obtain ⟨t, ht, hcut⟩ := ih h
      exact ⟨t, List.mem_cons_of_mem s ht, hcut⟩

/-- The computation of an action is cut off where something that it calls is. -/
theorem tooDeep_of_compute (h : (ev.compute nested d a inputs).result = .error .tooDeep) :
    ∃ b args, ev.catalog.Calls a b ∧ (nested b args).result = .error .tooDeep := by
  rcases hg : a.graph with - | g
  · rw [ev.compute_of_plain hg, Run.result_bind, Except.bind_eq_error, result_select] at h
    rcases h with h | ⟨s, hs, h⟩
    · exact absurd h (Halt.mapError_failed_ne_tooDeep _)
    · rcases htarget : s.target with c | target
      · simp only [runStrategy, htarget, Run.result_bind, Except.bind_eq_error, expect_eq_error]
          at h
        rcases h with ⟨e, -, hfailed⟩ | ⟨returned, -, e, -, hfailed⟩ <;> cases hfailed
      · rw [runStrategy, htarget] at h
        exact ⟨target, inputs, calls_of_target hg (expect_eq_ok.1 hs) htarget, h⟩
  · rw [ev.compute_of_graph hg] at h
    simp only [evaluateGraph, Run.result_bind, Except.bind_eq_error, expect_eq_error] at h
    rcases h with ⟨e, -, hfailed⟩ | ⟨start, -, h | ⟨table, -, ⟨e, -, hfailed⟩ | ⟨_, -, h⟩⟩⟩
    · cases hfailed
    · obtain ⟨s, hs, args, hcut⟩ := tooDeep_of_evaluateSteps h
      exact ⟨s.action, args, .step hg hs, hcut⟩
    · cases hfailed
    · cases h

/-- If calls lower a measure, an evaluation with more levels than its action measures is not cut
    off. -/
theorem evaluateAction_ne_tooDeep
    (hmeasure : ∀ a b, ev.catalog.Calls a b → measure b < measure a) (hn : measure a < n) :
    (ev.evaluateAction n d a inputs).result ≠ .error .tooDeep := by
  induction n generalizing d a inputs with
  | zero => exact absurd hn (Nat.not_lt_zero _)
  | succ n ih =>
    intro h
    simp only [evaluateAction, Run.result_bind, Except.bind_eq_error, expect_eq_error] at h
    rcases h with ⟨e, -, hfailed⟩ | ⟨validated, -, h | ⟨results, -, e, -, hfailed⟩⟩
    · cases hfailed
    · -- What is called has a level less, and needs one less.
      obtain ⟨b, args, hcalls, hcut⟩ := tooDeep_of_compute h
      exact ih (Nat.lt_of_lt_of_le (hmeasure a b hcalls) (Nat.lt_succ_iff.1 hn)) hcut
    · cases hfailed

/-- An evaluation that is not cut off succeeds or fails. -/
theorem exists_result_of_ne_tooDeep {x : Run Halt Record} (h : x.result ≠ .error .tooDeep) :
    ∃ r : Except Error Record, x.result = r.mapError .failed := by
  rcases hx : x.result with (e | -) | outputs
  · exact ⟨.error e, rfl⟩
  · exact absurd hx h
  · exact ⟨.ok outputs, rfl⟩

/-- If calls lower a measure, every evaluation returns, and a limit above the measure of its action
    is enough. -/
theorem exists_returns (hmeasure : ∀ a b, ev.catalog.Calls a b → measure b < measure a)
    (a : Action) (inputs : Record) :
    ∃ r, ev.Returns a inputs r ∧ ∀ limit, measure a < limit →
      (ev.evaluate limit a inputs).result = r.mapError .failed := by
  have hne {n : Nat} (hn : measure a < n) : (ev.evaluateAction n 0 a inputs).result ≠
      .error .tooDeep := evaluateAction_ne_tooDeep hmeasure hn
  obtain ⟨r, hr⟩ := exists_result_of_ne_tooDeep (hne (Nat.lt_succ_self _))
  refine ⟨r, returns_of_evaluateAction hr, fun limit hlimit => ?_⟩
  rw [evaluate_result, ← hr, ev.evaluateAction_of_le hlimit (hne (Nat.lt_succ_self _))]

end Evaluator

/-- If codes have ranks such that a strategy delegates to nothing but what consists of plain actions
    of lower ranks, the evaluation of every action returns, and it nests no deeper than a number
    that depends on the catalog and the action only, whatever the configuration, the context and
    the inputs are: it needs no greater limit, and whatever the limit is, all its visits are at
    depths up to that number. -/
theorem returns_of_ranked {c : Catalog} {rank : String → Nat} (hrank : c.Ranked rank)
    (a : Action) :
    ∃ depth, ∀ (config : Config) (context : Context) (inputs : Record),
      let ev : Evaluator := ⟨c, config, context⟩
      (∃ r, ev.Returns a inputs r ∧ ∀ limit, depth < limit →
        (ev.evaluate limit a inputs).result = r.mapError .failed) ∧
      ∀ limit v, ev.Visits limit ⟨.caller, 0, a, inputs⟩ v → v.depth ≤ depth := by
  refine ⟨a.levels (c.plainLevels rank), fun config context inputs => ?_⟩
  have hmeasure (a b : Action) (hcalls : c.Calls a b) :
      b.levels (c.plainLevels rank) < a.levels (c.plainLevels rank) := hrank.levels_lt hcalls
  refine ⟨Evaluator.exists_returns hmeasure a inputs, fun limit v hvisits => ?_⟩
  have hdepth := hvisits.depth_le hmeasure
  dsimp only at hdepth
  omega

/-! ## An action in front of the relay -/

namespace Relay

/-- A plain action with the ports of the relay. -/
def front : Action := { shell with code := "Front" }

/-- The strategy of that action: the relay is evaluated. -/
def forward : Strategy := ⟨front, engine, .action relay⟩

/-- The catalog of the relay with that strategy. -/
def frontCatalog : Catalog :=
  { catalog with implementations := catalog.implementations.insert forward }

/-- The rank of the action is above that of the others. -/
def frontRank (code : String) : Nat := if code = "Front" then 1 else 0

theorem plain_of_contains {b : Action} (h : relay.Contains b) (hplain : b.graph = none) :
    b = echo ∨ b = join := by
  cases h with
  | self => cases hplain
  | step hg hs h =>
    cases hg
    rcases List.mem_cons.1 hs with rfl | hs
    · cases h with
      | self => exact .inl rfl
      | step hg => cases hg
    · rw [List.mem_singleton.1 hs] at h
      cases h with
      | self => exact .inr rfl
      | step hg => cases hg

theorem target_ne_action {code : String} {s : Strategy}
    (hs : s ∈ (catalog.implementations.strategies code).values) (target : Action) :
    s.target ≠ .action target := by
  obtain ⟨engines, hentry, hs⟩ := StrategyPool.exists_of_mem_strategies hs
  rcases List.mem_cons.1 hentry with heq | hentry
  · cases heq
    rw [List.mem_singleton.1 hs]
    rintro ⟨⟩
  · cases List.mem_singleton.1 hentry
    rw [List.mem_singleton.1 hs]
    rintro ⟨⟩

theorem ranked : frontCatalog.Ranked frontRank := by
  intro code s hs target htarget b hb hplain
  rcases StrategyPool.mem_strategies_of_insert hs with ⟨rfl, rfl⟩ | hs
  · cases htarget
    rcases plain_of_contains hb hplain with rfl | rfl <;> decide
  · exact absurd htarget (target_ne_action hs target)

end Relay

/-- The action in front of the relay returns, whatever the context and the inputs are. -/
theorem returns_of_ranked_front :
    Relay.frontCatalog.Ranked Relay.frontRank ∧
      ∃ depth, ∀ (config : Config) (context : Context) (inputs : Record),
        let ev : Evaluator := ⟨Relay.frontCatalog, config, context⟩
        (∃ r, ev.Returns Relay.front inputs r ∧ ∀ limit, depth < limit →
          (ev.evaluate limit Relay.front inputs).result = r.mapError .failed) ∧
        ∀ limit v, ev.Visits limit ⟨.caller, 0, Relay.front, inputs⟩ v → v.depth ≤ depth :=
  ⟨Relay.ranked, returns_of_ranked Relay.ranked Relay.front⟩

end Dataflow
