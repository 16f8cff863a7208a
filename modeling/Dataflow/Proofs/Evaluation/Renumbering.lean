import Mathlib.Data.List.Nodup
import Mathlib.Logic.Equiv.Basic
import Dataflow.Proofs.Evaluation.Delegation

/-!
# Steps in another order

The steps of an algorithm may stand in any order in which each reads earlier ones only. Another
such order gives the steps other numbers, and the ports of steps that binds refer to are renumbered
with them (`Graph.Renumbered`).

A value table is filled in the order of the steps and is keyed by their numbers, so two such
evaluations have nothing to do with each other step by step. What they have in common is the
assignment: with its ports renumbered it gives every step the same arguments and the same outputs,
and the algorithm the same results (`Assignment.arguments?_renumber`, `Assignment.outputs_renumber`,
`Assignment.results?_renumber`). As assignments know no order, one that solves the steps of one
graph solves those of the other (`Assignment.SolvesBelow.renumber`), and the two algorithms succeed
with the same outputs (`returns_iff_of_renumbered`). When they fail, the first step that does so
need not be the same.
-/

namespace Dataflow

variable {π : Equiv.Perm Nat}

/-! ## Renumbered graphs -/

/-- The port of a step with its step renumbered. -/
def StepPort.renumber (π : Equiv.Perm Nat) (port : StepPort) : StepPort := ⟨π port.step, port.port⟩

/-- The source with its step renumbered, if it has one. -/
def Source.renumber (π : Equiv.Perm Nat) : Source → Source
  | .inlet i => .inlet i
  | .stepOutlet port => .stepOutlet (port.renumber π)
  | .const v => .const v

/-- The destination with its step renumbered, if it has one. -/
def Destination.renumber (π : Equiv.Perm Nat) : Destination → Destination
  | .stepInlet port => .stepInlet (port.renumber π)
  | .outlet i => .outlet i

/-- The second graph is the first one with the steps in another order: the step `k` is at the place
    `π k`, and the binds are the same, up to their order, if the steps that they refer to are
    renumbered. -/
structure Graph.Renumbered (π : Equiv.Perm Nat) (g g' : Graph) : Prop where
  /-- The same actions are placed. -/
  actions : ∀ k, (g'.steps[π k]?).map Step.action = (g.steps[k]?).map Step.action
  /-- The same binds are made. -/
  binds : g'.binds.entries.Perm (g.binds.entries.map fun (d, source) =>
    (d.renumber π, source.renumber π))

@[simp] theorem StepPort.renumber_symm_renumber (port : StepPort) :
    (port.renumber π).renumber π.symm = port := by
  simp [renumber]

@[simp] theorem Source.renumber_symm_renumber (source : Source) :
    (source.renumber π).renumber π.symm = source := by
  cases source <;> simp [renumber]

@[simp] theorem Destination.renumber_symm_renumber (d : Destination) :
    (d.renumber π).renumber π.symm = d := by
  cases d <;> simp [renumber]

theorem Destination.renumber_injective : Function.Injective (Destination.renumber π) :=
  Function.LeftInverse.injective Destination.renumber_symm_renumber

namespace Graph.Renumbered

variable {g g' : Graph} {k : Nat} {s s' : Step} (h : g.Renumbered π g')

include h

/-- The first graph is the second one with the steps back in their places. -/
theorem symm : g'.Renumbered π.symm g where
  actions k := by
    rw [← h.actions (π.symm k), Equiv.apply_symm_apply]
  binds := by
    have hmap := h.binds.map fun (bound : Destination × Source) =>
      (bound.1.renumber π.symm, bound.2.renumber π.symm)
    rw [List.map_map] at hmap
    refine List.Perm.symm (hmap.trans (.of_eq ?_))
    exact (List.map_congr_left fun bound _ => by simp).trans (List.map_id _)

/-- A renumbered destination has the renumbered source. -/
theorem sourceOf? (d : Destination) :
    g'.sourceOf? (d.renumber π) = (g.sourceOf? d).map (Source.renumber π) := by
  refine Option.ext fun source => ?_
  rw [Graph.sourceOf?, OrderedMap.get?_eq_some_iff, h.binds.mem_iff, List.mem_map,
    Option.map_eq_some_iff]
  constructor
  · rintro ⟨⟨d', source'⟩, hmem, heq⟩
    obtain ⟨hd, rfl⟩ := Prod.mk.inj heq
    obtain rfl := Destination.renumber_injective hd
    exact ⟨source', OrderedMap.get?_eq_some_iff.2 hmem, rfl⟩
  · rintro ⟨source', hsource, rfl⟩
    exact ⟨(d, source'), OrderedMap.get?_eq_some_iff.1 hsource, rfl⟩

theorem sourceOf?_outlet (i : Nat) :
    g'.sourceOf? (.outlet i) = (g.sourceOf? (.outlet i)).map (Source.renumber π) :=
  h.sourceOf? (.outlet i)

/-- Every step of the second graph is at the new place of a step of the first one. -/
theorem exists_getElem? (hs : g'.steps[k]? = some s') :
    ∃ s, g.steps[π.symm k]? = some s ∧ s'.action = s.action := by
  have haction := h.actions (π.symm k)
  rw [Equiv.apply_symm_apply, hs] at haction
  obtain ⟨s, hs, haction⟩ := Option.map_eq_some_iff.1 haction.symm
  exact ⟨s, hs, haction.symm⟩

end Graph.Renumbered

/-! ## Renumbered assignments -/

namespace Assignment

variable {σ : Assignment} {g g' : Graph} {inputs : Record} {s s' : Step} {context : Context}
  {A A' : Action}

/-- The assignment for renumbered steps. -/
def renumber (π : Equiv.Perm Nat) (σ : Assignment) : Assignment :=
  fun port => σ (port.renumber π.symm)

/-- A renumbered source stands for the same value. -/
theorem value?_renumber (source : Source) :
    (σ.renumber π).value? inputs (source.renumber π) = σ.value? inputs source := by
  cases source with
  | inlet i => rfl
  | stepOutlet port => simp [value?, Source.renumber, renumber]
  | const v => rfl

theorem bind_value?_renumber (source : Option Source) :
    (source.map (Source.renumber π)).bind ((σ.renumber π).value? inputs) =
      source.bind (σ.value? inputs) := by
  cases source with
  | none => rfl
  | some source => exact value?_renumber source

section

variable (haction : s'.action = s.action) (hordinal : s'.ordinal = π s.ordinal)

include haction hordinal

/-- A step takes the same at its new place. -/
theorem arguments?_renumber (h : g.Renumbered π g') :
    (σ.renumber π).arguments? context g' inputs s' = σ.arguments? context g inputs s := by
  have hread : (σ.renumber π).argument? context g' inputs s' =
      σ.argument? context g inputs s := by
    funext i p
    have hsource := h.sourceOf? (.stepInlet ⟨s.ordinal, i⟩)
    rw [Destination.renumber, StepPort.renumber, ← hordinal] at hsource
    rw [argument?, argument?, hsource, bind_value?_renumber]
  rw [arguments?, arguments?, hread, haction]

/-- A step gives the same at its new place. -/
theorem outputs_renumber : (σ.renumber π).outputs s' = σ.outputs s := by
  have hvalue (i : Nat) : σ.renumber π ⟨s'.ordinal, i⟩ = σ ⟨s.ordinal, i⟩ := by
    simp [renumber, StepPort.renumber, hordinal]
  simp only [outputs, haction, hvalue]

end

/-- The results are the same. -/
theorem results?_renumber (h : g.Renumbered π g') (houtlets : A'.outlets = A.outlets) :
    (σ.renumber π).results? g' inputs A' = σ.results? g inputs A := by
  simp only [results?, houtlets, h.sourceOf?_outlet, bind_value?_renumber]

/-- An assignment that solves all steps solves them in the other order. -/
theorem SolvesBelow.renumber {gives : Action → Record → Record → Prop}
    (h : σ.SolvesBelow context g inputs gives g.steps.length) (hg : g.Renumbered π g')
    (hconsistent : g.Consistent A) (hconsistent' : g'.Consistent A') :
    (σ.renumber π).SolvesBelow context g' inputs gives g'.steps.length := by
  intro k _ s' hs'
  obtain ⟨s, hs, haction⟩ := hg.exists_getElem? hs'
  have hordinal : s'.ordinal = π s.ordinal := by
    rw [(hconsistent'.numbered k s' hs').1, (hconsistent.numbered _ s hs).1,
      Equiv.apply_symm_apply]
  obtain ⟨args, hargs, hgives⟩ := h _ (List.getElem?_eq_some_iff.1 hs).1 s hs
  refine ⟨args, ?_, ?_⟩
  · rw [arguments?_renumber haction hordinal hg, hargs]
  · rw [haction, outputs_renumber haction hordinal]
    exact hgives

end Assignment

/-- What an algorithm succeeds with, one with the same ports and the steps in another order succeeds
    with. -/
theorem Evaluator.Succeeds.renumber {ev : Evaluator} {A A' : Action} {g g' : Graph}
    {inputs outputs : Record} (h : ev.Succeeds A inputs outputs) (hg : A.graph = some g)
    (hg' : A'.graph = some g') (hwf : g.WellFormed A) (hwf' : g'.WellFormed A')
    (hinlets : A'.inlets = A.inlets) (houtlets : A'.outlets = A.outlets)
    (hrenumbered : g.Renumbered π g') (horder : g'.InOrder) : ev.Succeeds A' inputs outputs := by
  obtain ⟨-, validated, hinputs, σ, hsolves, results, hresults, houtputs⟩ :=
    (succeeds_iff hwf hg).1 h
  refine (succeeds_iff hwf' hg').2 ⟨horder, validated, ?_, σ.renumber π, ?_, results, ?_, ?_⟩
  · rw [inject_congr hinlets]
    exact Action.validate_eq_ok_of_ports_eq hinlets hinputs
  · exact hsolves.renumber hrenumbered hwf.toConsistent hwf'.toConsistent
  · rw [Assignment.results?_renumber hrenumbered houtlets, hresults]
  · exact Action.validate_eq_ok_of_ports_eq houtlets houtputs

/-- The order in which the steps are placed does not matter, if each reads earlier ones only. Of two
    built algorithms with the same inlets and outlets whose graphs differ in the order of the steps,
    both of them in order, one succeeds exactly if the other does, with the same outputs. -/
theorem returns_iff_of_renumbered {A A' : Action} {g g' : Graph} (hbuilt : A.Built)
    (hbuilt' : A'.Built) (hg : A.graph = some g) (hg' : A'.graph = some g')
    (hinlets : A'.inlets = A.inlets) (houtlets : A'.outlets = A.outlets)
    (hrenumbered : g.Renumbered π g') (horder : g.InOrder) (horder' : g'.InOrder) (ev : Evaluator)
    (inputs outputs : Record) :
    ev.Returns A inputs (.ok outputs) ↔ ev.Returns A' inputs (.ok outputs) := by
  have hwf := hbuilt.wellFormed_of_graph hg
  have hwf' := hbuilt'.wellFormed_of_graph hg'
  constructor
  · intro h
    exact Evaluator.Succeeds.renumber h hg hg' hwf hwf' hinlets houtlets hrenumbered horder'
  · intro h
    exact Evaluator.Succeeds.renumber h hg' hg hwf' hwf hinlets.symm houtlets.symm
      hrenumbered.symm horder

/-! ## Two echoes in either order -/

namespace Relay

/-- A builder that joins echoes of two inlets; the echoes may be swapped. -/
def pairBuilder (swapped : Bool) : Builder.Fallible Produced := do
  let a ← Builder.inlet (.code "a")
  let b ← Builder.inlet (.code "b")
  let first ← Builder.invoke echo [.port (if swapped then b else a)] []
  let second ← Builder.invoke echo [.port (if swapped then a else b)] []
  let joined ← Builder.invoke join [] [("left", .step (if swapped then second else first)),
    ("right", .step (if swapped then first else second))]
  return .single (.step joined)

/-- The graph of that builder. -/
def pairGraph (swapped : Bool) : Graph where
  steps := [⟨"Pair", 0, echo⟩, ⟨"Pair", 1, echo⟩, ⟨"Pair", 2, join⟩]
  binds := .ofList [
    (.stepInlet ⟨0, 0⟩, .inlet (if swapped then 1 else 0)),
    (.stepInlet ⟨1, 0⟩, .inlet (if swapped then 0 else 1)),
    (.stepInlet ⟨2, 1⟩, .stepOutlet ⟨if swapped then 1 else 0, 0⟩),
    (.stepInlet ⟨2, 2⟩, .stepOutlet ⟨if swapped then 0 else 1, 0⟩),
    (.outlet 0, .stepOutlet ⟨2, 0⟩)]

/-- The algorithm of that builder. -/
def pairOf (swapped : Bool) : Action where
  code := "Pair"
  inlets := ⟨[⟨"a", .any⟩, ⟨"b", .any⟩], by decide⟩
  outlets := join.outlets
  graph := some (pairGraph swapped)

theorem built_pair (swapped : Bool) : (pairOf swapped).Built := by
  refine ⟨∅, 0, "Pair", [⟨"a", .any⟩, ⟨"b", .any⟩], [⟨"res", .any⟩], pairBuilder swapped,
    fun s hs => ?_, by cases swapped <;> rfl⟩
  obtain rfl := Except.ok.inj hs
  -- Either way the inlets and the steps that are bound have been issued.
  cases swapped
  all_goals
    refine ⟨.port (Scope.issued_inlet (by decide)),
      .stepInlet List.mem_cons_self (.index 0) rfl, ?_⟩
    refine ⟨.port (Scope.issued_inlet (by decide)),
      .stepInlet List.mem_cons_self (.index 0) rfl, ?_⟩
    refine ⟨.step (by simp), .stepInlet List.mem_cons_self (.code "left") rfl, ?_⟩
    refine ⟨.step (by simp), .stepInlet List.mem_cons_self (.code "right") rfl, ?_⟩
    intro p hp output ho
    obtain rfl := Except.ok.inj hp
    obtain rfl := List.mem_singleton.1 ho
    exact .step (by simp)

theorem renumbered_pair : (pairGraph false).Renumbered (Equiv.swap 0 1) (pairGraph true) where
  actions k := by
    rcases k with - | - | - | k
    · rfl
    · rfl
    · rfl
    · rw [Equiv.swap_apply_of_ne_of_ne (by omega) (by omega)]
      rfl
  binds := .swap _ _ _

theorem inOrder_pair (swapped : Bool) : (pairGraph swapped).InOrder := by
  rintro (_ | _ | _ | k) s hs (_ | _ | _ | i) port ⟨-, hsource, hlate⟩ <;>
    cases hs <;> cases swapped <;> cases hsource <;> exact absurd hlate (by decide)

/-- A value for each of the two inlets. -/
def pairInputs : Record := .ofList [("a", .json (.bool true)), ("b", .json .null)]

end Relay

/-- With the echoes swapped the join gives the same list. -/
theorem returns_iff_of_renumbered_pair :
    Relay.evaluator.Returns (Relay.pairOf true) Relay.pairInputs
      (.ok (Relay.single "res" (.array [.bool true, .null]))) :=
  (returns_iff_of_renumbered (Relay.built_pair false) (Relay.built_pair true) rfl rfl rfl rfl
    Relay.renumbered_pair (Relay.inOrder_pair false) (Relay.inOrder_pair true) Relay.evaluator
    _ _).1 ⟨2, rfl⟩

end Dataflow
