import Dataflow.Proofs.Arithmetic.Library
import Dataflow.Proofs.Evaluation.ContextFree
import Dataflow.Proofs.Evaluation.Nesting

/-!
# What operations call

An algorithm of the library has plain operations as its steps, and the only action that a strategy
delegates to is the one that increments twice. So operations call nothing but operations, none of
which sees the context (`Arithmetic.hidesContext`), and they nest less deeply than the limit of the
program (`Arithmetic.result_of_depthLimit_le`).
-/

namespace Dataflow.Arithmetic

variable {op : Operation} {a b : Action}

/-! ## Steps and targets -/

/-- The steps of an algorithm of the library are plain operations. -/
theorem Operation.exists_of_step {g : Graph} {s : Step} (hg : op.graph? = some g)
    (hs : s ∈ g.steps) : ∃ step : Operation, step.graph? = none ∧ step.action = s.action := by
  obtain ⟨steps, binds, rfl, hplain⟩ : ∃ steps binds, g = op.graphOf steps binds ∧
      ∀ step ∈ steps, step.graph?.isNone = true := by
    cases op <;> cases hg <;> exact ⟨_, _, rfl, by decide⟩
  obtain ⟨k, hk, rfl⟩ := List.mem_mapIdx.1 hs
  have hnone : steps[k].graph? = none :=
    Option.isNone_iff_eq_none.1 (hplain _ (List.getElem_mem hk))
  refine ⟨steps[k], hnone, ?_⟩
  rw [Operation.action, hnone]
  rfl

theorem targets_eq : catalog.targets = [Operation.incrementTwice.action] := rfl

/-- Operations call operations. -/
theorem Operation.exists_of_calls (h : catalog.Calls op.action b) :
    ∃ called : Operation, called.action = b := by
  cases h with
  | step hg hs =>
    obtain ⟨step, -, hstep⟩ := Operation.exists_of_step hg hs
    exact ⟨step, hstep⟩
  | delegate _ hs htarget =>
    have htargets := Catalog.mem_targets hs htarget
    rw [targets_eq, List.mem_singleton] at htargets
    exact ⟨.incrementTwice, htargets.symm⟩

theorem Operation.exists_of_reaches (h : catalog.Reaches op.action b) :
    ∃ reached : Operation, reached.action = b := by
  induction h with
  | refl => exact ⟨op, rfl⟩
  | tail _ hcalls ih =>
    obtain ⟨reached, rfl⟩ := ih
    exact Operation.exists_of_calls hcalls

/-- No operation sees the context, and neither does what it calls. -/
theorem hidesContext (op : Operation) : catalog.HidesContext op.action := by
  intro b hb p hp
  obtain ⟨reached, rfl⟩ := Operation.exists_of_reaches hb
  rw [Operation.numeric_of_mem_inlets hp]
  rfl

/-! ## Depth -/

/-- An increment is of a lower rank than what may be delegated. -/
def rank (code : String) : Nat := if code = Operation.increment.code then 0 else 1

theorem rank_le (code : String) : rank code ≤ 1 := by
  rw [rank]
  split <;> decide

/-- An increment is not delegated. -/
theorem target_increment_ne {s : Strategy} {target : Action}
    (hs : s ∈ (catalog.implementations.strategies Operation.increment.code).values) :
    s.target ≠ .action target := by
  have hcallable : ∃ c, s.target = .callable c := by
    rcases List.mem_cons.1 hs with rfl | hs
    · exact ⟨_, rfl⟩
    · rw [List.mem_singleton.1 hs]
      exact ⟨_, rfl⟩
  obtain ⟨c, hc⟩ := hcallable
  rw [hc]
  rintro ⟨⟩

theorem action_of_step_incrementTwice {g : Graph} {s : Step}
    (hg : Operation.incrementTwice.graph? = some g) (hs : s ∈ g.steps) :
    s.action = Operation.increment.action := by
  cases hg
  rcases List.mem_cons.1 hs with rfl | hs
  · rfl
  · rw [List.mem_singleton.1 hs]
    rfl

/-- What is delegated consists of increments. -/
theorem eq_increment_of_contains (h : (Operation.incrementTwice.action).Contains b)
    (hplain : b.graph = none) : b = Operation.increment.action := by
  cases h with
  | self => cases hplain
  | step hg hs h =>
    rw [action_of_step_incrementTwice hg hs] at h
    cases h with
    | self => rfl
    | step hg => cases hg

theorem ranked : catalog.Ranked rank := by
  intro code s hs target htarget b hb hplain
  have htargets := Catalog.mem_targets hs htarget
  rw [targets_eq, List.mem_singleton] at htargets
  have hcode : code ≠ Operation.increment.code := by
    rintro rfl
    exact target_increment_ne hs htarget
  have hb : b = Operation.increment.action := eq_increment_of_contains (htargets ▸ hb) hplain
  have hlow : rank b.code = 0 := by
    rw [hb]
    rfl
  rw [hlow, rank, if_neg hcode]
  decide

theorem levels_le_one (op : Operation) : op.action.levels (fun _ => 0) ≤ 1 := by
  rcases hg : op.graph? with - | g
  · rw [Action.levels_of_plain hg]
    exact Nat.zero_le 1
  · rw [Action.levels_of_graph hg, Nat.succ_le_succ_iff]
    show List.foldr max (⊥ : Nat) _ ≤ _
    refine List.max_le_of_forall_le _ _ fun x hx => ?_
    obtain ⟨s, hs, rfl⟩ := List.mem_map.1 hx
    obtain ⟨step, hplain, hstep⟩ := Operation.exists_of_step hg hs
    rw [← hstep, Action.levels_of_plain hplain]

theorem reach_le : catalog.reach ≤ 1 := by
  rw [Catalog.reach, targets_eq]
  exact Nat.max_le.2 ⟨levels_le_one .incrementTwice, Nat.zero_le 1⟩

theorem levels_lt_depthLimit (op : Operation) :
    op.action.levels (catalog.plainLevels rank) < Program.depthLimit := by
  have hplain (code : String) : catalog.plainLevels rank code ≤ (1 + 1) * (1 + 1) :=
    Nat.mul_le_mul (Nat.succ_le_succ (rank_le code)) (Nat.succ_le_succ reach_le)
  calc op.action.levels (catalog.plainLevels rank)
      ≤ op.action.levels (fun _ => 0) + (1 + 1) * (1 + 1) :=
        Action.levels_le fun b _ _ => hplain b.code
    _ ≤ 1 + (1 + 1) * (1 + 1) := Nat.add_le_add_right (levels_le_one op) _
    _ < Program.depthLimit := by decide

/-- An evaluation of an operation is not cut off at the limit of the program. -/
theorem result_of_depthLimit_le {ev : Evaluator} (hcatalog : ev.catalog = catalog)
    (op : Operation) (inputs : Record) :
    ∃ r : Except Error Record, ∀ limit, Program.depthLimit ≤ limit →
      (ev.evaluate limit op.action inputs).result = r.mapError .failed := by
  have hmeasure (a b : Action) (hcalls : ev.catalog.Calls a b) :
      b.levels (catalog.plainLevels rank) < a.levels (catalog.plainLevels rank) :=
    ranked.levels_lt (hcatalog ▸ hcalls)
  obtain ⟨r, -, hr⟩ := Evaluator.exists_returns hmeasure op.action inputs
  exact ⟨r, fun limit hlimit => hr limit (Nat.lt_of_lt_of_le (levels_lt_depthLimit op) hlimit)⟩

end Dataflow.Arithmetic
