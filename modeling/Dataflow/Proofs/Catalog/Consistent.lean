import Dataflow.Proofs.Catalog.Command

/-!
# Consistent catalogs

The three pools of a catalog tell the same story, although different commands fill them. An
algorithm is an action with a graph, and the pool of algorithms is that of the actions with
the others left out; strategies belong to actions that are registered. A catalog is consistent
when it is empty, and entering what a catalog admits keeps it so (`Consistent.enter`), so every
sequence of commands leaves a consistent catalog (`pools_agree`).
-/

namespace Dataflow.Catalog

/-- The pools of a catalog agree with each other. -/
structure Consistent (c : Catalog) : Prop where
  /-- Every action is stored under its code. -/
  codes : ∀ entry ∈ c.actions.entries.entries, entry.1 = entry.2.code
  /-- The algorithms are the actions that have a graph, in the same order. -/
  algorithms : c.algorithms.entries.entries =
    c.actions.entries.entries.filter fun entry => entry.2.isAlgorithm
  /-- An action that has a place for strategies is registered. -/
  declared : ∀ code ∈ c.implementations.entries.keys, code ∈ c.actions.entries.keys
  /-- No place for strategies is empty. -/
  nonempty : ∀ code engines, c.implementations.entries.get? code = some engines →
    engines.entries ≠ []
  /-- Every strategy is stored under the code of its action and under its engine. -/
  strategies : ∀ code engine s, (c.implementations.strategies code).get? engine = some s →
    s.action.code = code ∧ s.engine = engine

theorem consistent_empty : (∅ : Catalog).Consistent where
  codes _ h := by cases h
  algorithms := rfl
  declared _ h := by cases h
  nonempty _ _ h := by cases h
  strategies _ _ _ h := by cases h

namespace Consistent

variable {c : Catalog} {a : Action} {s : Strategy}

/-- What holds of the actions still holds when another one is at their end. -/
theorem codes_append (h : c.Consistent) :
    ∀ entry ∈ c.actions.entries.entries ++ [(a.code, a)], entry.1 = entry.2.code := by
  intro entry hentry
  rcases List.mem_append.1 hentry with hold | hnew
  · exact h.codes entry hold
  · rw [List.mem_singleton.1 hnew]

theorem declared_insert (h : c.Consistent) :
    ∀ code ∈ c.implementations.entries.keys, code ∈ (c.actions.entries.insert a.code a).keys := by
  intro code hcode
  rw [OrderedMap.keys_insert]
  split
  · exact h.declared code hcode
  · exact List.mem_append_left _ (h.declared code hcode)

theorem enter_action (h : c.Consistent) (hadmits : c.Admits (.action a)) :
    (c.enter (.action a)).Consistent := by
  obtain ⟨hactions, halgorithms, -⟩ := appends_enter hadmits
  refine ⟨hactions ▸ h.codes_append, ?_, h.declared_insert, h.nonempty, h.strategies⟩
  have hplain : a.isAlgorithm = false := by rw [Action.isAlgorithm, hadmits.1]; rfl
  rw [halgorithms, hactions, List.filter_append, h.algorithms]
  simp [hplain]

theorem enter_algorithm (h : c.Consistent) (hadmits : c.Admits (.algorithm a)) :
    (c.enter (.algorithm a)).Consistent := by
  obtain ⟨hactions, halgorithms, -⟩ := appends_enter hadmits
  refine ⟨hactions ▸ h.codes_append, ?_, h.declared_insert, h.nonempty, h.strategies⟩
  have hgraph : a.isAlgorithm = true := hadmits.1
  rw [halgorithms, hactions, List.filter_append, h.algorithms]
  simp [hgraph]

theorem enter_strategy (h : c.Consistent) (hadmits : c.Admits (.strategy s)) :
    (c.enter (.strategy s)).Consistent where
  codes := h.codes
  algorithms := h.algorithms
  declared code hcode := by
    have hkeys : code ∈ (c.implementations.insert s).entries.keys := hcode
    rw [StrategyPool.insert, OrderedMap.keys_insert] at hkeys
    split at hkeys
    · exact h.declared code hkeys
    · rcases List.mem_append.1 hkeys with hold | hnew
      · exact h.declared code hold
      · exact List.mem_singleton.1 hnew ▸ hadmits.1
  nonempty code engines hengines := by
    have hentry : (c.implementations.insert s).entries.get? code = some engines := hengines
    rw [StrategyPool.insert, OrderedMap.get?_insert] at hentry
    split at hentry
    · rw [← Option.some.inj hentry, OrderedMap.entries_insert_of_not_mem hadmits.2]
      exact List.append_ne_nil_of_right_ne_nil _ (List.cons_ne_nil _ _)
    · exact h.nonempty code engines hentry
  strategies code engine s' hs' := by
    have hget : ((c.implementations.insert s).strategies code).get? engine = some s' := hs'
    rw [StrategyPool.strategies_insert] at hget
    split at hget
    · next hcode =>
      rw [OrderedMap.get?_insert] at hget
      split at hget
      · next hengine =>
        rw [← Option.some.inj hget]
        exact ⟨hcode.symm, hengine.symm⟩
      · exact h.strategies code engine s' hget
    · exact h.strategies code engine s' hget

/-- Entering what a consistent catalog admits keeps it consistent. -/
theorem enter {entry : Entry} (h : c.Consistent) (hadmits : c.Admits entry) :
    (c.enter entry).Consistent := by
  cases entry with
  | action a => exact h.enter_action hadmits
  | algorithm a => exact h.enter_algorithm hadmits
  | strategy s => exact h.enter_strategy hadmits

end Consistent

/-- What commands leave of an empty catalog is consistent. -/
theorem consistent_after (commands : List Command) : ((∅ : Catalog).after commands).Consistent :=
  after_induction (fun _ _ hadmits h => h.enter hadmits) consistent_empty commands

variable {c : Catalog} {code : String} {a : Action}

/-- A code is that of an algorithm if the action of that code has a graph; both are the same. -/
theorem Consistent.get_algorithms_iff (h : c.Consistent) :
    c.algorithms.get code = .ok a ↔ c.actions.get code = .ok a ∧ ∃ g, a.graph = some g := by
  rw [ActionPool.get_eq_ok_iff, ActionPool.get_eq_ok_iff, h.algorithms, List.mem_filter,
    Action.isAlgorithm, Option.isSome_iff_exists]

theorem Consistent.exists_action (h : c.Consistent)
    (hcode : code ∈ c.implementations.entries.keys) : ∃ a, c.actions.get code = .ok a := by
  obtain ⟨entry, hentry, rfl⟩ := List.mem_map.1 (h.declared code hcode)
  exact ⟨entry.2, ActionPool.get_eq_ok_iff.2 hentry⟩

/-- The algorithms stand in the order that their codes have among the actions. -/
theorem Consistent.keys_algorithms (h : c.Consistent) :
    c.algorithms.entries.keys = c.actions.entries.keys.filter c.algorithms.contains := by
  -- The code of an action is that of an algorithm just when the action is one.
  have hcontains : ∀ entry ∈ c.actions.entries.entries,
      c.algorithms.contains entry.1 = entry.2.isAlgorithm := by
    intro entry hentry
    rw [Bool.eq_iff_iff, ActionPool.contains, OrderedMap.contains_iff, OrderedMap.keys,
      h.algorithms]
    constructor
    · intro hmem
      obtain ⟨entry', hentry', hkey⟩ := List.mem_map.1 hmem
      obtain ⟨hmem', hgraph⟩ := List.mem_filter.1 hentry'
      rwa [← List.inj_on_of_nodup_map c.actions.entries.nodup hmem' hentry hkey]
    · exact fun hgraph => List.mem_map_of_mem (List.mem_filter.2 ⟨hentry, hgraph⟩)
  rw [OrderedMap.keys, OrderedMap.keys, List.filter_map, h.algorithms]
  exact congrArg _ (List.filter_congr fun entry hentry => (hcontains entry hentry).symm)

/-- Whatever commands were carried out on an empty catalog, and whichever of them failed:
    actions and algorithms are stored under their codes; a code is that of an algorithm exactly
    when the action of that code has a graph, and both are the same; the algorithms stand in the
    order of the actions, and each of them has a graph to list; the codes with strategies are
    codes of actions, and none of them has an empty set of strategies; and strategies are stored
    under the codes of their actions and under their engines. -/
theorem pools_agree (commands : List Command) :
    let c := (∅ : Catalog).after commands
    (∀ code a, c.actions.get code = .ok a → a.code = code) ∧
    (∀ code a, c.algorithms.get code = .ok a → a.code = code) ∧
    (∀ code a, c.algorithms.get code = .ok a ↔
      c.actions.get code = .ok a ∧ ∃ g, a.graph = some g) ∧
    c.algorithms.entries.keys = c.actions.entries.keys.filter c.algorithms.contains ∧
    (∀ a ∈ c.algorithms.toList, ∃ g, a.graph = some g) ∧
    (∀ code ∈ c.implementations.entries.keys, ∃ a, c.actions.get code = .ok a) ∧
    (∀ code engines, c.implementations.entries.get? code = some engines →
      engines.entries ≠ [] ∧
        ∀ engine s, engines.get? engine = some s → s.action.code = code ∧ s.engine = engine) := by
  have h := consistent_after commands
  refine ⟨fun code a ha => ?_, fun code a ha => ?_, fun code a => h.get_algorithms_iff, ?_,
    fun a ha => ?_, fun code hcode => h.exists_action hcode,
    fun code engines hengines => ⟨h.nonempty code engines hengines, fun engine s hs => ?_⟩⟩
  · exact (h.codes _ (ActionPool.get_eq_ok_iff.1 ha)).symm
  · exact (h.codes _ (ActionPool.get_eq_ok_iff.1 (h.get_algorithms_iff.1 ha).1)).symm
  · exact h.keys_algorithms
  · obtain ⟨entry, hentry, rfl⟩ := List.mem_map.1 ha
    rw [h.algorithms, List.mem_filter] at hentry
    exact Option.isSome_iff_exists.1 hentry.2
  · refine h.strategies code engine s ?_
    rw [StrategyPool.strategies, hengines]
    exact hs

/-- Of these commands the third and the last are refused. The algorithm is found among the actions
    as well, and the strategy under the code of its action. -/
theorem pools_agree_pipe :
    let c := (∅ : Catalog).after
      [Pipe.declaration, Pipe.registration, Pipe.declaration, Pipe.construction, Pipe.registration]
    c.actions.entries.keys = ["Pipe", "Pipeline"] ∧ c.implementations.entries.keys = ["Pipe"] ∧
      c.algorithms.entries.keys = ["Pipe", "Pipeline"].filter c.algorithms.contains ∧
      c.algorithms.get "Pipeline" = .ok Pipe.pipeline ∧
      c.actions.get "Pipeline" = .ok Pipe.pipeline ∧
      (∃ a, c.actions.get "Pipe" = .ok a) ∧
      ∃ engines, c.implementations.entries.get? "Pipe" = some engines ∧ engines.entries ≠ [] ∧
        ∀ engine s, engines.get? engine = some s → s.action.code = "Pipe" ∧ s.engine = engine := by
  intro c
  obtain ⟨-, -, hboth, hkeys, -, hdeclared, hstrategies⟩ := pools_agree
    [Pipe.declaration, Pipe.registration, Pipe.declaration, Pipe.construction, Pipe.registration]
  have hpipeline : c.algorithms.get "Pipeline" = .ok Pipe.pipeline := rfl
  exact ⟨rfl, rfl, hkeys, hpipeline, ((hboth _ _).1 hpipeline).1, hdeclared _ List.mem_cons_self, _,
    rfl, hstrategies _ _ rfl⟩

end Dataflow.Catalog
