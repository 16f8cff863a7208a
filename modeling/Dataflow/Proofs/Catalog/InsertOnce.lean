import Dataflow.Proofs.Catalog.Pool

/-!
# Pools of strategies and their history

A pool of strategies is what the calls that registered strategies in it left, in any order of
actions and engines, and whichever of them failed. It is the index of these calls in which the
first one for an action and an engine counts: a later one for the same pair fails and leaves the
pool as it is. What every query of the pool answers is told by the list of the calls
(`pool_indexes_calls`).

The invariant is `StrategyPool.Indexes`, which one more call keeps (`StrategyPool.Indexes.add`).
-/

namespace Dataflow

/-- A strategy is for the action of a code and for an engine. -/
def Strategy.IsFor (s : Strategy) (code : String) (engine : EngineKey) : Prop :=
  s.action.code = code ∧ s.engine = engine

instance (s : Strategy) (code : String) (engine : EngineKey) : Decidable (s.IsFor code engine) :=
  inferInstanceAs (Decidable (_ ∧ _))

namespace StrategyPool

/-- Of a list with one more element at the end, the element is kept if it is new. -/
theorem eraseDups_concat {α : Type} [DecidableEq α] (l : List α) (a : α) :
    (l ++ [a]).eraseDups = if a ∈ l.eraseDups then l.eraseDups else l.eraseDups ++ [a] := by
  rw [List.eraseDups_append, List.removeAll, List.filter_singleton]
  by_cases h : a ∈ l
  · simp [h]
  · simp [h, List.eraseDups_cons]

variable {pool : StrategyPool} {calls : List Strategy} {s : Strategy} {code : String}
  {engine : EngineKey}

/-- The pool after calls that register strategies, one after the other, some of which may fail. -/
def after (pool : StrategyPool) (calls : List Strategy) : StrategyPool :=
  calls.foldl (fun pool s => (pool.add s).2) pool

/-- The engines that calls name for the action of a code, in the order in which each is named
    first. -/
def enginesNamed (code : String) (calls : List Strategy) : List EngineKey :=
  ((calls.filter (·.action.code = code)).map (·.engine)).eraseDups

/-- The strategy of the first call for the action of a code and an engine. -/
def firstFor? (code : String) (engine : EngineKey) (calls : List Strategy) : Option Strategy :=
  calls.find? (·.IsFor code engine)

theorem mem_enginesNamed : engine ∈ enginesNamed code calls ↔ ∃ t ∈ calls, t.IsFor code engine := by
  simp only [enginesNamed, List.mem_eraseDups, List.mem_map, List.mem_filter, decide_eq_true_eq,
    Strategy.IsFor, and_assoc]

theorem enginesNamed_eq_nil_iff :
    enginesNamed code calls = [] ↔ ∀ t ∈ calls, t.action.code ≠ code := by
  rw [List.eq_nil_iff_forall_not_mem]
  simp only [mem_enginesNamed, Strategy.IsFor]
  exact ⟨fun h t ht hcode => h t.engine ⟨t, ht, hcode, rfl⟩, fun h engine ⟨t, ht, hcode, _⟩ =>
    h t ht hcode⟩

/-- One more call names its engine last, unless an earlier one named it. -/
theorem enginesNamed_concat (code : String) (calls : List Strategy) (s : Strategy) :
    enginesNamed code (calls ++ [s]) =
      if code = s.action.code ∧ s.engine ∉ enginesNamed code calls then
        enginesNamed code calls ++ [s.engine]
      else enginesNamed code calls := by
  rw [enginesNamed, List.filter_append]
  by_cases hcode : s.action.code = code
  · have hlast : [s].filter (·.action.code = code) = [s] := by simp [hcode]
    rw [hlast, List.map_append, List.map_singleton, eraseDups_concat]
    change (if s.engine ∈ enginesNamed code calls then enginesNamed code calls
      else enginesNamed code calls ++ [s.engine]) = _
    by_cases hmem : s.engine ∈ enginesNamed code calls
    · rw [if_pos hmem, if_neg fun h => h.2 hmem]
    · rw [if_neg hmem, if_pos ⟨hcode.symm, hmem⟩]
  · have hlast : [s].filter (·.action.code = code) = [] := by simp [hcode]
    rw [hlast, List.append_nil, if_neg fun h => hcode h.1.symm]
    rfl

theorem firstFor?_concat (code : String) (engine : EngineKey) (calls : List Strategy)
    (s : Strategy) :
    firstFor? code engine (calls ++ [s]) =
      (firstFor? code engine calls).or (if s.IsFor code engine then some s else none) := by
  rw [firstFor?, List.find?_append, List.find?_singleton]
  simp only [decide_eq_true_eq]
  rfl

/-- The first call for an engine exists if the engine was named. -/
theorem firstFor?_eq_none_iff :
    firstFor? code engine calls = none ↔ engine ∉ enginesNamed code calls := by
  rw [firstFor?, List.find?_eq_none, mem_enginesNamed]
  simp only [decide_eq_true_eq, not_exists, not_and]

/-- The engine that is named first is that of the first call for the action. -/
theorem head?_enginesNamed :
    (enginesNamed code calls).head? = (calls.find? (·.action.code = code)).map (·.engine) := by
  have hhead (l : List EngineKey) : l.eraseDups.head? = l.head? := by
    cases l with
    | nil => rfl
    | cons a rest => rw [List.eraseDups_cons, List.head?_cons, List.head?_cons]
  rw [enginesNamed, hhead, List.head?_map, List.head?_filter]

/-- The first call for an action is the first one for the action and its engine. -/
theorem firstFor?_of_find? (h : calls.find? (·.action.code = code) = some s) :
    firstFor? code s.engine calls = some s := by
  obtain ⟨hcode, before, after, rfl, hbefore⟩ := List.find?_eq_some_iff_append.1 h
  refine List.find?_eq_some_iff_append.2 ⟨?_, before, after, rfl, fun t ht => ?_⟩
  · simpa [Strategy.IsFor] using hcode
  · have hother : t.action.code ≠ code := by simpa using hbefore t ht
    simp [Strategy.IsFor, hother]

/-! ## The invariant -/

/-- A pool holds what the first calls for every action and engine registered, in the order of
    these calls. -/
structure Indexes (pool : StrategyPool) (calls : List Strategy) : Prop where
  /-- The engines of an action are those named for it. -/
  keys : ∀ code, (pool.strategies code).keys = enginesNamed code calls
  /-- The strategy for an engine is that of the first call for it. -/
  get? : ∀ code engine, (pool.strategies code).get? engine = firstFor? code engine calls

theorem indexes_empty : (∅ : StrategyPool).Indexes [] := ⟨fun _ => rfl, fun _ _ => rfl⟩

/-- A call for a pair that was registered before changes nothing of what there is. -/
theorem Indexes.of_mem (h : pool.Indexes calls)
    (hmem : s.engine ∈ enginesNamed s.action.code calls) : pool.Indexes (calls ++ [s]) where
  keys code := by
    rw [h.keys, enginesNamed_concat, if_neg]
    rintro ⟨rfl, hnew⟩
    exact hnew hmem
  get? code engine := by
    rw [h.get?, firstFor?_concat]
    by_cases hs : s.IsFor code engine
    · -- There is an earlier call for the pair.
      obtain ⟨rfl, rfl⟩ := hs
      obtain ⟨t, ht⟩ := Option.ne_none_iff_exists'.1 fun hnone => firstFor?_eq_none_iff.1 hnone hmem
      rw [ht]
      rfl
    · rw [if_neg hs, Option.or_none]

/-- The first call for a pair puts its strategy at the end of those of the action. -/
theorem Indexes.insert (h : pool.Indexes calls)
    (hnew : s.engine ∉ enginesNamed s.action.code calls) :
    (pool.insert s).Indexes (calls ++ [s]) where
  keys code := by
    rw [strategies_insert, enginesNamed_concat]
    by_cases hcode : code = s.action.code
    · subst hcode
      rw [if_pos rfl, if_pos ⟨rfl, hnew⟩, OrderedMap.keys_insert, h.keys, if_neg hnew]
    · rw [if_neg hcode, if_neg fun h' => hcode h'.1, h.keys]
  get? code engine := by
    rw [strategies_insert, firstFor?_concat]
    by_cases hcode : code = s.action.code
    · subst hcode
      rw [if_pos rfl, OrderedMap.get?_insert, h.get?]
      by_cases hengine : engine = s.engine
      · subst hengine
        rw [if_pos rfl, firstFor?_eq_none_iff.2 hnew, if_pos ⟨rfl, rfl⟩]
        rfl
      · rw [if_neg hengine, if_neg fun h' : s.IsFor _ _ => hengine h'.2.symm, Option.or_none]
    · rw [if_neg hcode, h.get?, if_neg fun h' : s.IsFor _ _ => hcode h'.1.symm, Option.or_none]

/-- One more call keeps the index, whether it succeeds or fails. -/
theorem Indexes.add (h : pool.Indexes calls) (s : Strategy) :
    (pool.add s).2.Indexes (calls ++ [s]) := by
  by_cases hmem : s.engine ∈ enginesNamed s.action.code calls
  · rw [add_of_mem (h.keys _ ▸ hmem)]
    exact h.of_mem hmem
  · rw [add_of_not_mem (h.keys _ ▸ hmem)]
    exact h.insert hmem

/-- Calls keep the index, one after the other. -/
theorem Indexes.after (h : pool.Indexes calls) (more : List Strategy) :
    (pool.after more).Indexes (calls ++ more) := by
  induction more generalizing pool calls with
  | nil => rwa [List.append_nil]
  | cons s rest ih =>
    rw [List.append_cons]
    exact ih (h.add s)

/-- A pool that calls filled is their index. -/
theorem indexes_after (calls : List Strategy) : ((∅ : StrategyPool).after calls).Indexes calls :=
  indexes_empty.after calls

/-! ## The queries -/

namespace Indexes

variable (h : pool.Indexes calls)

include h

theorem add_eq_ok_iff : (pool.add s).1 = .ok () ↔ ∀ t ∈ calls, ¬t.IsFor s.action.code s.engine := by
  have hnamed : s.engine ∈ enginesNamed s.action.code calls ↔
      ∃ t ∈ calls, t.IsFor s.action.code s.engine := mem_enginesNamed
  by_cases hmem : s.engine ∈ enginesNamed s.action.code calls
  · rw [add_of_mem (h.keys _ ▸ hmem)]
    obtain ⟨t, ht, hs⟩ := hnamed.1 hmem
    exact iff_of_false nofun fun h' => h' t ht hs
  · rw [add_of_not_mem (h.keys _ ▸ hmem)]
    exact iff_of_true rfl fun t ht hs => hmem (hnamed.2 ⟨t, ht, hs⟩)

theorem add_of_exists (hs : ∃ t ∈ calls, t.IsFor s.action.code s.engine) :
    pool.add s = (.error (.engineAlreadyExists s.action.code s.engine), pool) :=
  add_of_mem (h.keys _ ▸ mem_enginesNamed.2 hs)

/-- `register` succeeds as `add` does, and gives the pool that is left. -/
theorem register_eq_ok_iff {left : StrategyPool} :
    pool.register s = .ok left ↔
      (∀ t ∈ calls, ¬t.IsFor s.action.code s.engine) ∧ left = (pool.add s).2 := by
  rw [register, ← h.add_eq_ok_iff]
  rcases pool.add s with ⟨e | u, left'⟩
  · simp
  · simp [eq_comm]

theorem register_eq_error_iff {e : Error} :
    pool.register s = .error e ↔
      (∃ t ∈ calls, t.IsFor s.action.code s.engine) ∧
        e = .engineAlreadyExists s.action.code s.engine := by
  by_cases hs : ∃ t ∈ calls, t.IsFor s.action.code s.engine
  · rw [register, h.add_of_exists hs]
    simp [hs, eq_comm]
  · have hfree : ∀ t ∈ calls, ¬t.IsFor s.action.code s.engine := fun t ht hfor => hs ⟨t, ht, hfor⟩
    rw [h.register_eq_ok_iff.2 ⟨hfree, rfl⟩]
    simp [hs]

theorem isEmpty_iff :
    (pool.strategies code).isEmpty = true ↔ ∀ t ∈ calls, t.action.code ≠ code := by
  rw [OrderedMap.isEmpty_iff, ← enginesNamed_eq_nil_iff, ← h.keys, OrderedMap.keys,
    List.map_eq_nil_iff]

theorem isEmpty_eq_false_iff :
    (pool.strategies code).isEmpty = false ↔ ∃ t ∈ calls, t.action.code = code := by
  rw [← Bool.not_eq_true, h.isEmpty_iff]
  push Not
  rfl

theorem list_eq_error_iff {e : Error} :
    pool.list code = .error e ↔
      e = .notExists .implementation code ∧ ∀ t ∈ calls, t.action.code ≠ code := by
  rw [list_eq, ← h.isEmpty_iff]
  split
  · next hempty => simp [hempty, eq_comm]
  · next hempty => simp [hempty]

theorem get_eq_error_iff {e : Error} :
    pool.get code engine = .error e ↔
      (e = .notExists .implementation code ∧ ∀ t ∈ calls, t.action.code ≠ code) ∨
      (e = .engineNotExists code engine ∧ (∃ t ∈ calls, t.action.code = code) ∧
        ∀ t ∈ calls, ¬t.IsFor code engine) := by
  rw [StrategyPool.get_eq_error_iff, h.list_eq_error_iff, h.isEmpty_eq_false_iff, h.keys,
    mem_enginesNamed]
  simp only [not_exists, not_and]

theorem get_eq_ok_iff : pool.get code engine = .ok s ↔ firstFor? code engine calls = some s := by
  rw [StrategyPool.get_eq_ok_iff, h.get?]

/-- The first strategy of an action is that of the first call for it. -/
theorem first?_eq_find? : pool.first? code = calls.find? (·.action.code = code) := by
  refine Option.ext fun s => ?_
  rw [first?_eq_some_iff, engines, h.keys, head?_enginesNamed]
  simp only [h.get_eq_ok_iff]
  constructor
  · rintro ⟨engine, hengine, hs⟩
    obtain ⟨t, ht, rfl⟩ := Option.map_eq_some_iff.1 hengine
    exact ht.trans ((firstFor?_of_find? ht).symm.trans hs)
  · exact fun hs => ⟨s.engine, by rw [hs]; rfl, firstFor?_of_find? hs⟩

end Indexes

end StrategyPool

/-- Calls register strategies in an empty pool, in any order of actions and engines, and some of
    them fail. Then one more call succeeds exactly if no earlier one was for the same action and
    engine; otherwise it fails for that and leaves the pool as it is. That is so for both forms of
    the call, the one that leaves a pool in any case and the one that gives it only if it succeeds.
    The engines of an action are those that the calls for it named, in the order in which each came
    first. The list of an action has these engines in this order, and it is missing exactly if no
    call was for the action. Under an action and an engine stands the strategy of the first call for
    them; it is missing for the action if there was no call for that, and for the engine if there
    was one, but none for the engine. The first strategy of an action is that of the first call for
    it, which is also the first in the list and the one for the first engine. -/
theorem pool_indexes_calls (calls : List Strategy) :
    let pool := (∅ : StrategyPool).after calls
    (∀ s, ((pool.add s).1 = .ok () ↔ ∀ t ∈ calls, ¬t.IsFor s.action.code s.engine) ∧
      ((∃ t ∈ calls, t.IsFor s.action.code s.engine) →
        pool.add s = (.error (.engineAlreadyExists s.action.code s.engine), pool)) ∧
      (∀ left, pool.register s = .ok left ↔
        (∀ t ∈ calls, ¬t.IsFor s.action.code s.engine) ∧
          left = (∅ : StrategyPool).after (calls ++ [s])) ∧
      ∀ e, pool.register s = .error e ↔
        (∃ t ∈ calls, t.IsFor s.action.code s.engine) ∧
          e = .engineAlreadyExists s.action.code s.engine) ∧
    ∀ code,
      pool.engines code = ((calls.filter (·.action.code = code)).map (·.engine)).eraseDups ∧
      (∀ engines, pool.list code = .ok engines → engines.keys = pool.engines code) ∧
      (∀ e, pool.list code = .error e ↔
        e = .notExists .implementation code ∧ ∀ t ∈ calls, t.action.code ≠ code) ∧
      (∀ engine s, pool.get code engine = .ok s ↔
        calls.find? (·.IsFor code engine) = some s) ∧
      (∀ engine e, pool.get code engine = .error e ↔
        (e = .notExists .implementation code ∧ ∀ t ∈ calls, t.action.code ≠ code) ∨
        (e = .engineNotExists code engine ∧ (∃ t ∈ calls, t.action.code = code) ∧
          ∀ t ∈ calls, ¬t.IsFor code engine)) ∧
      pool.first? code = calls.find? (·.action.code = code) ∧
      ∀ s, (pool.first? code = some s ↔
          ∃ engines, pool.list code = .ok engines ∧ engines.first? = some s) ∧
        (pool.first? code = some s ↔
          ∃ engine, (pool.engines code).head? = some engine ∧ pool.get code engine = .ok s) := by
  intro pool
  have h : pool.Indexes calls := StrategyPool.indexes_after calls
  have hadd (s : Strategy) : (pool.add s).2 = (∅ : StrategyPool).after (calls ++ [s]) := by
    rw [StrategyPool.after, List.foldl_append]
    rfl
  refine ⟨fun s => ⟨h.add_eq_ok_iff, h.add_of_exists, fun left => hadd s ▸ h.register_eq_ok_iff,
    fun e => h.register_eq_error_iff⟩, fun code => ⟨h.keys code,
    fun engines hlist => ?_, fun e => h.list_eq_error_iff, fun engine s => h.get_eq_ok_iff,
    fun engine e => h.get_eq_error_iff, h.first?_eq_find?,
    fun s => ⟨StrategyPool.first?_eq_some_iff_list, StrategyPool.first?_eq_some_iff⟩⟩⟩
  rw [StrategyPool.eq_of_list_eq_ok hlist]
  rfl

/-- The engines keep the order of their registration; the second call for the first engine
    fails. -/
example :
    let call (engine : String) : Strategy :=
      ⟨⟨"Sum", default, default, none⟩, ⟨engine⟩, .callable ⟨[], fun _ => .ok .nothing⟩⟩
    ((∅ : StrategyPool).after [call "zeta", call "alpha", call "zeta", call "mid"]).engines "Sum" =
      [⟨"zeta"⟩, ⟨"alpha"⟩, ⟨"mid"⟩] := rfl

end Dataflow
