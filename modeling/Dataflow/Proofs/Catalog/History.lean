import Mathlib.Logic.Relation
import Dataflow.Proofs.Builder.Build
import Dataflow.Proofs.Catalog.Command

/-!
# Histories of catalogs

Which actions there are, and which catalogs. An action is declared, or it is built from
actions (`Action.Obtained`); a catalog is filled by registrations, from the empty one on,
and those that fail count as well, as they may leave a trace (`Catalog.Reached`).

An action calls its steps, or what its strategies delegate to (`Catalog.Calls`). In a
catalog with such a history an obtained action calls obtained ones only, and so does
everything that it reaches (`Action.Obtained.of_reaches`).
-/

namespace Dataflow

/-- The strategies of an action after a registration: another one at most, if it is for that
    action. -/
theorem StrategyPool.mem_strategies_of_insert {pool : StrategyPool} {s s' : Strategy}
    {code : String} (hs : s' ∈ ((pool.insert s).strategies code).values) :
    s' = s ∧ code = s.action.code ∨ s' ∈ (pool.strategies code).values := by
  rw [strategies_insert] at hs
  split at hs
  · next hcode =>
    obtain ⟨entry, hentry, rfl⟩ := List.mem_map.1 hs
    rcases OrderedMap.mem_entries_insert hentry with rfl | hold
    · exact .inl ⟨rfl, hcode⟩
    · exact .inr (List.mem_map_of_mem hold)
  · exact .inr hs

/-- The actions that there are: a declaration returned them, in some catalog, or a build did,
    whose steps are such actions. -/
inductive Action.Obtained : Action → Prop
  /-- A declaration returned it. -/
  | declared {c : Catalog} {code : String} {inlets outlets : List Parameter} {a : Action}
    (h : (Catalog.declare code inlets outlets c).1.result = .ok a) : Obtained a
  /-- A build returned it. -/
  | built {a : Action} (h : a.Built)
    (hsteps : ∀ g, a.graph = some g → ∀ s ∈ g.steps, Obtained s.action) : Obtained a

namespace Catalog

/-- The catalogs that there are: registrations filled them, some of which may have failed. A
    strategy that is registered delegates to an action that there is. -/
inductive Reached : Catalog → Prop
  | empty : Reached ∅
  | declare {c : Catalog} (h : Reached c) (code : String) (inlets outlets : List Parameter) :
    Reached (declare code inlets outlets c).2
  | implement {c : Catalog} (h : Reached c) (a : Action) (engine : EngineKey)
    (callable : Callable) : Reached (implement a engine callable c).2
  | delegate {c : Catalog} (h : Reached c) (a : Action) (engine : EngineKey) {target : Action}
    (htarget : target.Obtained) : Reached (delegate a engine target c).2
  | registerStrategy {c : Catalog} (h : Reached c) {s : Strategy}
    (htarget : ∀ target, s.target = .action target → target.Obtained) :
    Reached (registerStrategy s c).2
  | build {c : Catalog} (h : Reached c) (identity : Identity) (code : String)
    (inlets outlets : List Parameter) (builder : Builder.Fallible Produced) :
    Reached (build identity code inlets outlets builder c).2

/-- Every strategy that delegates does so to an action that there is. -/
def DelegatesToObtained (c : Catalog) : Prop :=
  ∀ code, ∀ s ∈ (c.implementations.strategies code).values,
    ∀ target, s.target = .action target → target.Obtained

variable {c : Catalog}

/-- An entry may be a strategy that delegates to an action that there is. -/
theorem DelegatesToObtained.enter (h : c.DelegatesToObtained) {entry : Entry}
    (hentry : ∀ s target, entry = .strategy s → s.target = .action target → target.Obtained) :
    (c.enter entry).DelegatesToObtained := by
  cases entry with
  | action a => exact h
  | algorithm a => exact h
  | strategy s =>
    intro code s' hs'
    rcases StrategyPool.mem_strategies_of_insert hs' with ⟨rfl, -⟩ | hold
    · exact fun target => hentry s' target rfl
    · exact h code s' hold

theorem DelegatesToObtained.registerStrategy (h : c.DelegatesToObtained) {s : Strategy}
    (htarget : ∀ target, s.target = .action target → target.Obtained) :
    (Catalog.registerStrategy s c).2.DelegatesToObtained := by
  rcases outcome_registerStrategy_cases c s with ⟨e, hleft⟩ | ⟨-, hleft⟩
  · rwa [Registration.left_of_outcome hleft]
  · rw [Registration.left_of_outcome hleft]
    refine h.enter fun s' target heq => ?_
    exact Entry.strategy.inj heq ▸ htarget target

/-- The strategies of a catalog with a history delegate to actions that there are. -/
theorem Reached.delegatesToObtained {c : Catalog} (h : c.Reached) : c.DelegatesToObtained := by
  induction h with
  | empty =>
    intro code s hs
    cases hs
  | @declare c _ code inlets outlets ih =>
    -- What is registered is no strategy.
    rcases outcome_declare_cases c code inlets outlets with ⟨e, hleft⟩ | ⟨a, -, -, hleft⟩
    · rwa [Registration.left_of_outcome hleft]
    · rw [Registration.left_of_outcome hleft]
      exact ih.enter fun _ _ heq => nomatch heq
  | implement _ a engine callable ih =>
    -- A callable delegates to nothing.
    exact ih.registerStrategy fun target htarget => nomatch htarget
  | delegate _ a engine hobtained ih =>
    exact ih.registerStrategy fun target htarget => Target.action.inj htarget ▸ hobtained
  | registerStrategy _ htarget ih => exact ih.registerStrategy htarget
  | @build c _ identity code inlets outlets builder ih =>
    rcases outcome_build_cases c identity code inlets outlets builder with
      ⟨e, hleft⟩ | ⟨a, -, -, hleft⟩
    · rwa [Registration.left_of_outcome hleft]
    · rw [Registration.left_of_outcome hleft]
      exact ih.enter fun _ _ heq => nomatch heq

/-! ## Calls -/

/-- An action calls another one: it is an algorithm with the other one as a step, or it is
    plain and a strategy of it delegates to the other one. -/
inductive Calls (c : Catalog) (a : Action) : Action → Prop
  | step {g : Graph} {s : Step} (hg : a.graph = some g) (hs : s ∈ g.steps) : Calls c a s.action
  | delegate {s : Strategy} {target : Action} (hplain : a.graph = none)
    (hs : s ∈ (c.implementations.strategies a.code).values) (htarget : s.target = .action target) :
    Calls c a target

/-- An action reaches another one by calls. -/
def Reaches (c : Catalog) : Action → Action → Prop := Relation.ReflTransGen c.Calls

end Catalog

namespace Action

variable {a b : Action} {c : Catalog} {g : Graph}

/-- What a declaration returns is plain. -/
theorem graph_of_declare {code : String} {inlets outlets : List Parameter}
    (h : (Catalog.declare code inlets outlets c).1.result = .ok a) : a.graph = none := by
  rw [Catalog.declare, Registration.result_bind, Except.bind_eq_ok] at h
  obtain ⟨plain, hplain, h⟩ := h
  simp only [Registration.result_bind, Except.bind_eq_ok] at h
  obtain ⟨_, -, _, -, _, -, h⟩ := h
  obtain rfl := Except.pure_eq_ok.1 h
  exact (Action.of_ofParameters hplain).2

/-- An algorithm that there is has a well-formed graph. -/
theorem Obtained.wellFormed (h : a.Obtained) (hg : a.graph = some g) : g.WellFormed a := by
  cases h with
  | declared h =>
    rw [graph_of_declare h] at hg
    cases hg
  | built h => exact h.wellFormed_of_graph hg

theorem Obtained.of_calls (hc : c.Reached) (h : a.Obtained) (hcalls : c.Calls a b) :
    b.Obtained := by
  cases hcalls with
  | step hg hs =>
    cases h with
    | declared h =>
      rw [graph_of_declare h] at hg
      cases hg
    | built _ hsteps => exact hsteps _ hg _ hs
  | delegate _ hs htarget => exact hc.delegatesToObtained _ _ hs _ htarget

/-- What an action reaches in a catalog with a history is an action that there is. -/
theorem Obtained.of_reaches (hc : c.Reached) (h : a.Obtained) (hreaches : c.Reaches a b) :
    b.Obtained := by
  induction hreaches with
  | refl => exact h
  | tail _ hcalls ih => exact ih.of_calls hc hcalls

end Action

end Dataflow
