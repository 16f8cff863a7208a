import Dataflow.Catalog.Pool
import Dataflow.Proofs.OrderedMap
import Dataflow.Proofs.Run

/-!
# Pools

What a pool holds after a registration. An action whose code is free goes to the end of its
pool. A strategy gets a place for the strategies of its action first, but that place was there
before if the engine is found to be taken (`StrategyPool.add_of_mem`), so a strategy that is
refused leaves nothing behind; one that is accepted goes to the end of those of its action
(`StrategyPool.appends_insert`).

The queries of a pool of strategies, which look at it in different ways, are all told by the
strategies that it has for an action (`StrategyPool.list_eq`, `StrategyPool.get_eq_ok_iff`,
`StrategyPool.get_eq_error_iff`).
-/

namespace Dataflow

namespace ActionPool

variable {entity : Entity} {pool : ActionPool entity} {code : String}

theorem ensureVacant_of_not_mem (h : code ∉ pool.entries.keys) :
    pool.ensureVacant code = .ok () :=
  if_neg fun hmem => h (OrderedMap.contains_iff.1 hmem)

theorem not_mem_of_ensureVacant {u : Unit} (h : pool.ensureVacant code = .ok u) :
    code ∉ pool.entries.keys := by
  intro hmem
  have htaken : pool.contains code = true := OrderedMap.contains_iff.2 hmem
  rw [ensureVacant, if_pos htaken] at h
  cases h

/-- An action is registered if its code is free. -/
theorem register_of_not_mem {a : Action} (h : a.code ∉ pool.entries.keys) :
    pool.register a = .ok ⟨pool.entries.insert a.code a⟩ := by
  rw [register, ensureVacant_of_not_mem h]
  rfl

theorem get_eq_ok_iff {a : Action} : pool.get code = .ok a ↔ (code, a) ∈ pool.entries.entries := by
  rw [← OrderedMap.get?_eq_some_iff, get]
  cases pool.entries.get? code <;> simp

end ActionPool

namespace StrategyPool

variable {pool pool' : StrategyPool} {s : Strategy} {code : String} {engine : EngineKey}

@[simp] theorem strategies_reserve (pool : StrategyPool) (code other : String) :
    (pool.reserve code).strategies other = pool.strategies other := by
  rw [strategies, reserve, OrderedMap.get?_insert]
  split
  · next h => rw [h, Option.getD_some]
  · rfl

/-- The strategies of an action have a place in the pool, under its code. -/
theorem exists_of_mem_strategies (hs : s ∈ (pool.strategies code).values) :
    ∃ engines, (code, engines) ∈ pool.entries.entries ∧ s ∈ engines.values := by
  rw [strategies] at hs
  cases hentry : pool.entries.get? code with
  | none =>
    rw [hentry] at hs
    cases hs
  | some engines =>
    rw [hentry, Option.getD_some] at hs
    exact ⟨engines, OrderedMap.get?_eq_some_iff.1 hentry, hs⟩

/-- A place that holds strategies is not made anew. -/
theorem reserve_of_mem (h : engine ∈ (pool.strategies code).keys) :
    pool.reserve code = pool := by
  cases hentry : pool.entries.get? code with
  | none =>
    rw [strategies, hentry] at h
    cases h
  | some engines =>
    rw [reserve, OrderedMap.insert_of_get?_eq_some]
    rw [hentry, strategies, hentry, Option.getD_some]

/-- The pool with a strategy among those of its action. -/
def insert (pool : StrategyPool) (s : Strategy) : StrategyPool :=
  ⟨pool.entries.insert s.action.code ((pool.strategies s.action.code).insert s.engine s)⟩

/-- A strategy for an engine that the action has one for is refused, and leaves no place
    behind. -/
theorem add_of_mem (h : s.engine ∈ (pool.strategies s.action.code).keys) :
    pool.add s = (.error (.engineAlreadyExists s.action.code s.engine), pool) := by
  rw [add, if_pos (by rw [strategies_reserve]; exact OrderedMap.contains_iff.2 h),
    reserve_of_mem h]

theorem add_of_not_mem (h : s.engine ∉ (pool.strategies s.action.code).keys) :
    pool.add s = (.ok (), pool.insert s) := by
  have hfree : ¬(pool.strategies s.action.code).contains s.engine = true :=
    fun hmem => h (OrderedMap.contains_iff.1 hmem)
  rw [add, if_neg (by rwa [strategies_reserve]), strategies_reserve]
  simp only [reserve, OrderedMap.insert_insert]
  rfl

theorem strategies_insert (pool : StrategyPool) (s : Strategy) (code : String) :
    (pool.insert s).strategies code =
      if code = s.action.code then (pool.strategies code).insert s.engine s
      else pool.strategies code := by
  rw [strategies, insert, OrderedMap.get?_insert]
  split
  · next h => rw [h, Option.getD_some]
  · rfl

/-- The second pool is the first with a strategy at the end of those of its action, which have
    their place at the end of the pool if it is the first of them. -/
structure Appends (pool : StrategyPool) (s : Strategy) (pool' : StrategyPool) : Prop where
  engines : (pool'.strategies s.action.code).entries =
    (pool.strategies s.action.code).entries ++ [(s.engine, s)]
  others : ∀ code, code ≠ s.action.code → pool'.entries.get? code = pool.entries.get? code
  codes : pool'.entries.keys =
    if s.action.code ∈ pool.entries.keys then pool.entries.keys
    else pool.entries.keys ++ [s.action.code]

theorem appends_insert (h : s.engine ∉ (pool.strategies s.action.code).keys) :
    pool.Appends s (pool.insert s) where
  engines := by
    rw [strategies_insert, if_pos rfl]
    exact OrderedMap.entries_insert_of_not_mem h
  others code hcode := by rw [insert, OrderedMap.get?_insert, if_neg hcode]
  codes := OrderedMap.keys_insert _ _ _

/-! ### Queries -/

/-- The strategies of an action are listed unless there are none. -/
theorem list_eq (pool : StrategyPool) (code : String) :
    pool.list code =
      if (pool.strategies code).isEmpty then .error (.notExists .implementation code)
      else .ok (pool.strategies code) := by
  rw [list, strategies]
  cases pool.entries.get? code with
  | none => rfl
  | some engines => rfl

theorem eq_of_list_eq_ok {engines : OrderedMap EngineKey Strategy}
    (hlist : pool.list code = .ok engines) : engines = pool.strategies code := by
  rw [list_eq] at hlist
  split at hlist
  · cases hlist
  · exact (Except.ok.inj hlist).symm

/-- A strategy is found under a code and an engine if the action of the code has it. -/
theorem get_eq_ok_iff :
    pool.get code engine = .ok s ↔ (pool.strategies code).get? engine = some s := by
  rw [get, list_eq]
  by_cases hempty : (pool.strategies code).isEmpty = true
  · simp [hempty, OrderedMap.get?, OrderedMap.isEmpty_iff.1 hempty, bind, Except.bind]
  · cases hget : (pool.strategies code).get? engine <;>
      simp [hempty, hget, bind, Except.bind, pure, Except.pure]

/-- The first strategy of an action is the one for the first of its engines. -/
theorem first?_eq_some_iff :
    pool.first? code = some s ↔
      ∃ engine, (pool.engines code).head? = some engine ∧ pool.get code engine = .ok s := by
  simp only [get_eq_ok_iff]
  exact OrderedMap.first?_eq_some_iff

/-- The first strategy of an action stands first in its list. -/
theorem first?_eq_some_iff_list :
    pool.first? code = some s ↔
      ∃ engines, pool.list code = .ok engines ∧ engines.first? = some s := by
  constructor
  · intro h
    refine ⟨pool.strategies code, ?_, h⟩
    -- An action without strategies has no first one.
    have hempty : ¬(pool.strategies code).isEmpty = true := by
      rw [OrderedMap.isEmpty_iff, ← OrderedMap.first?_eq_none_iff]
      exact fun hnone => Option.some_ne_none s (h.symm.trans hnone)
    rw [list_eq, if_neg hempty]
  · rintro ⟨engines, hlist, h⟩
    rwa [eq_of_list_eq_ok hlist] at h

/-- There is no strategy for an action or an engine. -/
theorem get_eq_error_iff {e : Error} :
    pool.get code engine = .error e ↔
      pool.list code = .error e ∨
        e = .engineNotExists code engine ∧ (pool.strategies code).isEmpty = false ∧
          engine ∉ (pool.strategies code).keys := by
  rw [get, Except.bind_eq_error]
  refine or_congr_right ?_
  constructor
  · rintro ⟨engines, hlist, hget⟩
    obtain rfl := eq_of_list_eq_ok hlist
    rw [list_eq] at hlist
    split at hlist
    · cases hlist
    · next hempty =>
      split at hget
      · cases hget
      · next hnone =>
        exact ⟨(Except.error.inj hget).symm, by simpa using hempty,
          OrderedMap.get?_eq_none_iff.1 hnone⟩
  · rintro ⟨rfl, hempty, hengine⟩
    refine ⟨pool.strategies code, by rw [list_eq, hempty]; rfl, ?_⟩
    rw [OrderedMap.get?_eq_none_iff.2 hengine]
    rfl

end StrategyPool

end Dataflow
