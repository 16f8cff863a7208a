import Mathlib.Data.Nat.Find
import Dataflow.Graph
import Dataflow.Proofs.Action

/-!
# Well-formed graphs

A graph is well formed for an algorithm if its steps are numbered in order, its binds join
ports that exist, and nothing that needs a source lacks one (`Graph.WellFormed`). The
ports of such a graph are described by their names (`Graph.Consistent.describeSource`,
`Graph.Consistent.describeDestination`): the fallback texts, which give an index, are for
graphs that refer to what they do not have. It need not be in order (`Graph.InOrder`): a
step may read what a later step produces.

The check of a graph fails for the first inlet of a step that lacks a source, if there is one
(`Graph.validate_eq_error_iff`).
-/

namespace Dataflow.Graph

/-- There is a step with the port. -/
def HasPort (g : Graph) (direction : Direction) (port : StepPort) : Prop :=
  ∃ s, g.steps[port.step]? = some s ∧ port.port < (s.action.ports direction).size

/-- What a source refers to exists in the graph or is an inlet of the algorithm. -/
def HasSource (g : Graph) (algorithm : Action) : Source → Prop
  | .inlet i => i < algorithm.inlets.size
  | .stepOutlet port => g.HasPort .outward port
  | .const _ => True

/-- What a destination refers to exists in the graph or is an outlet of the algorithm. -/
def HasDestination (g : Graph) (algorithm : Action) : Destination → Prop
  | .stepInlet port => g.HasPort .inward port
  | .outlet i => i < algorithm.outlets.size

/-- The steps are numbered in order and the binds join ports that exist. -/
structure Consistent (g : Graph) (algorithm : Action) : Prop where
  /-- Every step knows its place and its algorithm. -/
  numbered : ∀ k (s : Step), g.steps[k]? = some s → s.ordinal = k ∧ s.algorithm = algorithm.code
  /-- Every source exists. -/
  sources : ∀ d source, (d, source) ∈ g.binds.entries → g.HasSource algorithm source
  /-- Every destination exists. -/
  destinations : ∀ d source, (d, source) ∈ g.binds.entries → g.HasDestination algorithm d

/-- The graph is consistent, and whatever needs a source has one. -/
structure WellFormed (g : Graph) (algorithm : Action) : Prop extends g.Consistent algorithm where
  /-- Every outlet of the algorithm is bound. -/
  outlets : ∀ i < algorithm.outlets.size, ∃ source, g.sourceOf? (.outlet i) = some source
  /-- Every inlet of a step that does not receive the context is bound. -/
  inlets : ∀ k (s : Step), g.steps[k]? = some s → ∀ i p, s.action.inlets.parameters[i]? = some p →
    p.type.isContext = false → ∃ source, g.sourceOf? (.stepInlet ⟨k, i⟩) = some source

/-- An inlet of a step that needs a source reads an outlet of the same or a later step. -/
def ReadsLate (g : Graph) (s : Step) (i : Nat) (port : StepPort) : Prop :=
  (∃ p, s.action.inlets.parameters[i]? = some p ∧ p.type.isContext = false) ∧
    g.sourceOf? (.stepInlet ⟨s.ordinal, i⟩) = some (.stepOutlet port) ∧ s.ordinal ≤ port.step

/-- The step with an ordinal reads outlets of earlier steps only. -/
def InOrderAt (g : Graph) (k : Nat) : Prop :=
  ∀ s, g.steps[k]? = some s → ∀ i port, ¬g.ReadsLate s i port

/-- Every step reads outlets of earlier steps only. -/
def InOrder (g : Graph) : Prop := ∀ k, g.InOrderAt k

/-- The texts that describe sources by the names of ports. -/
inductive NamesSource (g : Graph) (algorithm : Action) : Source → String → Prop
  | inlet {i : Nat} {p : Parameter} (h : algorithm.inlets.parameters[i]? = some p) :
    NamesSource g algorithm (.inlet i) s!"inlet `{p.name}` of `{algorithm.code}`"
  | stepOutlet {port : StepPort} {s : Step} {p : Parameter}
    (hs : g.steps[port.step]? = some s)
    (hp : s.action.outlets.parameters[port.port]? = some p) :
    NamesSource g algorithm (.stepOutlet port)
      s!"outlet `{p.name}` of step {port.step} (`{s.action.code}`)"
  | const (v : Value) : NamesSource g algorithm (.const v) s!"const {v.text}"

/-- The texts that describe destinations by the names of ports. -/
inductive NamesDestination (g : Graph) (algorithm : Action) : Destination → String → Prop
  | stepInlet {port : StepPort} {s : Step} {p : Parameter}
    (hs : g.steps[port.step]? = some s)
    (hp : s.action.inlets.parameters[port.port]? = some p) :
    NamesDestination g algorithm (.stepInlet port)
      s!"inlet `{p.name}` of step {port.step} (`{s.action.code}`)"
  | outlet {i : Nat} {p : Parameter} (h : algorithm.outlets.parameters[i]? = some p) :
    NamesDestination g algorithm (.outlet i) s!"outlet `{p.name}` of `{algorithm.code}`"

variable {g : Graph} {algorithm : Action} {s : Step} {p : Parameter} {k i : Nat}

theorem describePort_of_getElem? (direction : Direction)
    (h : (algorithm.ports direction).parameters[i]? = some p) :
    describePort algorithm direction i =
      s!"{direction.text}let `{p.name}` of `{algorithm.code}`" := by
  rw [describePort, Action.portAt?_of_getElem? h]
  rfl

theorem describeStepPort_of_getElem? {direction : Direction} {port : StepPort}
    (hs : g.steps[port.step]? = some s)
    (hp : (s.action.ports direction).parameters[port.port]? = some p) :
    g.describeStepPort direction port =
      s!"{direction.text}let `{p.name}` of step {s.ordinal} (`{s.action.code}`)" := by
  rw [describeStepPort, hs]
  dsimp only
  rw [Action.portAt?_of_getElem? hp]

namespace Consistent

/-- The ordinals of the steps are their places. -/
theorem map_ordinal (h : g.Consistent algorithm) :
    g.steps.map Step.ordinal = List.range g.steps.length := by
  refine List.ext_getElem (by simp) fun k hk _ => ?_
  rw [List.getElem_map, List.getElem_range]
  exact (h.numbered k _ (List.getElem?_eq_getElem (by simpa using hk))).1

/-- The source of a bind is described by the name of its port. -/
theorem describeSource (h : g.Consistent algorithm) {source : Source}
    (hsource : g.HasSource algorithm source) :
    g.NamesSource algorithm source (g.describeSource algorithm source) := by
  cases source with
  | inlet i =>
    obtain ⟨p, hp⟩ := Ports.exists_getElem? hsource
    rw [Graph.describeSource, describePort_of_getElem? .inward hp]
    exact .inlet hp
  | stepOutlet port =>
    obtain ⟨s, hs, hport⟩ := hsource
    obtain ⟨p, hp⟩ := Ports.exists_getElem? hport
    rw [Graph.describeSource, describeStepPort_of_getElem? hs hp, (h.numbered _ _ hs).1]
    exact .stepOutlet hs hp
  | const v => exact .const v

/-- The destination of a bind is described by the name of its port. -/
theorem describeDestination (h : g.Consistent algorithm) {d : Destination}
    (hd : g.HasDestination algorithm d) :
    g.NamesDestination algorithm d (g.describeDestination algorithm d) := by
  cases d with
  | stepInlet port =>
    obtain ⟨s, hs, hport⟩ := hd
    obtain ⟨p, hp⟩ := Ports.exists_getElem? hport
    rw [Graph.describeDestination, describeStepPort_of_getElem? hs hp, (h.numbered _ _ hs).1]
    exact .stepInlet hs hp
  | outlet i =>
    obtain ⟨p, hp⟩ := Ports.exists_getElem? hd
    rw [Graph.describeDestination, describePort_of_getElem? .outward hp]
    exact .outlet hp

end Consistent

/-- Texts that end in a parenthesis and in a quote differ. -/
theorem append_paren_ne_append_quote (s t : String) : s ++ "`)" ≠ t ++ "`" := by
  intro h
  have hlast := congrArg (fun text => text.toList.getLast?) h
  simp at hlast

/-- An outlet of a step is not described as a port of an action is. -/
theorem NamesSource.ne_describePort {port : StepPort} {text : String}
    (h : g.NamesSource algorithm (.stepOutlet port) text) (a : Action) (direction : Direction)
    (i : Nat) : text ≠ describePort a direction i := by
  cases h with
  | stepOutlet _ _ =>
    rw [describePort]
    split
    · exact append_paren_ne_append_quote _ _
    · exact append_paren_ne_append_quote _ _

theorem HasPort.step_lt {direction : Direction} {port : StepPort}
    (h : g.HasPort direction port) : port.step < g.steps.length := by
  obtain ⟨s, hs, -⟩ := h
  exact (List.getElem?_eq_some_iff.1 hs).1

theorem inOrderAt_of_length_le (hk : g.steps.length ≤ k) : g.InOrderAt k :=
  fun s hs => by rw [List.getElem?_eq_none hk] at hs; cases hs

/-- Of the inlets of a step that read something late, one is the first. -/
theorem exists_readsLate_of_not_inOrderAt (h : ¬g.InOrderAt k) :
    ∃ s i port, g.steps[k]? = some s ∧ g.ReadsLate s i port ∧
      ∀ j < i, ∀ port, ¬g.ReadsLate s j port := by
  classical
  simp only [InOrderAt, not_forall, not_not] at h
  obtain ⟨s, hs, hlate⟩ := h
  obtain ⟨port, hport⟩ := Nat.find_spec hlate
  exact ⟨s, _, port, hs, hport, fun j hj port hport => Nat.find_min hlate hj ⟨port, hport⟩⟩

theorem Consistent.hasSource_of_sourceOf? (h : g.Consistent algorithm) {d : Destination}
    {source : Source} (hd : g.sourceOf? d = some source) : g.HasSource algorithm source :=
  h.sources d source (OrderedMap.get?_eq_some_iff.1 hd)

/-! ## The check of the steps -/

theorem contains_of_firstUnbound? {step : Nat} {ps : List Parameter}
    (h : g.firstUnbound? step i ps = none) {j : Nat} (hp : ps[j]? = some p)
    (hc : p.type.isContext = false) : g.binds.contains (.stepInlet ⟨step, i + j⟩) = true := by
  induction ps generalizing i j with
  | nil => simp at hp
  | cons q rest ih =>
    rw [firstUnbound?] at h
    split at h
    · -- The check goes past a parameter that receives the context or is bound.
      next hq =>
      cases j with
      | zero =>
        obtain rfl : q = p := by simpa using hp
        simpa [hc] using hq
      | succ j =>
        have := ih h (j := j) (by simpa using hp)
        rwa [Nat.add_right_comm, Nat.add_assoc] at this
    · cases h

/-- The check finds nothing if all inlets are bound. -/
theorem firstUnbound?_eq_none {step : Nat} {ps : List Parameter}
    (h : ∀ j < ps.length, g.binds.contains (.stepInlet ⟨step, i + j⟩) = true) :
    g.firstUnbound? step i ps = none := by
  induction ps generalizing i with
  | nil => rfl
  | cons p rest ih =>
    rw [firstUnbound?, if_pos (.inr (h 0 (Nat.zero_lt_succ _)))]
    refine ih fun j hj => ?_
    rw [Nat.add_right_comm, Nat.add_assoc]
    exact h (j + 1) (Nat.succ_lt_succ hj)

theorem firstUnbound?_of_checkSteps {code : String} {l : List Step}
    (h : g.checkSteps code l = .ok ()) (hs : s ∈ l) :
    g.firstUnbound? s.ordinal 0 s.action.inlets.parameters = none := by
  induction l with
  | nil => cases hs
  | cons first rest ih =>
    rw [checkSteps] at h
    split at h
    · cases h
    · next hfirst =>
      rcases List.mem_cons.1 hs with rfl | hrest
      · exact hfirst
      · exact ih h hrest

theorem exists_sourceOf?_of_contains {d : Destination} (h : g.binds.contains d = true) :
    ∃ source, g.sourceOf? d = some source :=
  Option.isSome_iff_exists.1 (OrderedMap.isSome_get?_iff.2 (OrderedMap.contains_iff.1 h))

/-- A consistent graph that passes the check has a source for every inlet that needs one. -/
theorem Consistent.inlets_of_validate (h : g.Consistent algorithm) {code : String}
    (hcheck : g.validate code = .ok ()) (hs : g.steps[k]? = some s)
    (hp : s.action.inlets.parameters[i]? = some p) (hc : p.type.isContext = false) :
    ∃ source, g.sourceOf? (.stepInlet ⟨k, i⟩) = some source := by
  have hnone := firstUnbound?_of_checkSteps hcheck (List.mem_of_getElem? hs)
  have hbound := contains_of_firstUnbound? hnone hp hc
  rw [(h.numbered k s hs).1, Nat.zero_add] at hbound
  exact exists_sourceOf?_of_contains hbound

/-- An inlet of a step needs a source and has none. -/
structure Unbound (g : Graph) (s : Step) (i : Nat) (p : Parameter) : Prop where
  /-- The step is one of the graph. -/
  step : s ∈ g.steps
  /-- It has the inlet. -/
  inlet : s.action.inlets.parameters[i]? = some p
  /-- The inlet does not receive the context. -/
  needed : p.type.isContext = false
  /-- Nothing is bound to it. -/
  unbound : g.sourceOf? (.stepInlet ⟨s.ordinal, i⟩) = none

/-- An unbound inlet is the first one, in the order of the steps and of their inlets. -/
structure FirstUnbound (g : Graph) (s : Step) (i : Nat) (p : Parameter) : Prop extends
    g.Unbound s i p where
  /-- The others are inlets of later steps, or later inlets of the step. -/
  first : ∀ t j q, g.Unbound t j q → s.ordinal < t.ordinal ∨ s.ordinal = t.ordinal ∧ i ≤ j

/-- What the check of a step finds is its first unbound inlet. -/
theorem exists_of_firstUnbound? {step : Nat} {ps : List Parameter}
    (h : g.firstUnbound? step i ps = some p) :
    ∃ j, ps[j]? = some p ∧ p.type.isContext = false ∧
      g.sourceOf? (.stepInlet ⟨step, i + j⟩) = none ∧
      ∀ j' < j, ∀ q, ps[j']? = some q → q.type.isContext = false →
        g.binds.contains (.stepInlet ⟨step, i + j'⟩) = true := by
  induction ps generalizing i with
  | nil => cases h
  | cons first rest ih =>
    rw [firstUnbound?] at h
    split at h
    · -- The first parameter is passed over.
      next hfirst =>
      obtain ⟨j, hj, hc, hnone, hbefore⟩ := ih h
      rw [Nat.add_right_comm, Nat.add_assoc] at hnone
      refine ⟨j + 1, hj, hc, hnone, fun j' hj' q hq hcq => ?_⟩
      cases j' with
      | zero =>
        obtain rfl : first = q := by simpa using hq
        simpa [hcq] using hfirst
      | succ j' =>
        have hbound := hbefore j' (Nat.lt_of_succ_lt_succ hj') q hq hcq
        rwa [Nat.add_right_comm, Nat.add_assoc] at hbound
    · next hfirst =>
      obtain rfl := Option.some.inj h
      rw [not_or] at hfirst
      refine ⟨0, rfl, by simpa using hfirst.1, ?_, fun j' hj' => absurd hj' (Nat.not_lt_zero j')⟩
      exact OrderedMap.get?_eq_none_iff.2 (mt OrderedMap.contains_iff.2 hfirst.2)

/-- What the check of steps reports is what it finds at the first step where it finds anything. -/
theorem exists_of_checkSteps {code : String} {l : List Step} {e : Error}
    (h : g.checkSteps code l = .error e) :
    ∃ (k : Nat) (s : Step) (p : Parameter), l[k]? = some s ∧
      g.firstUnbound? s.ordinal 0 s.action.inlets.parameters = some p ∧
      e = .unboundInlet code s.ordinal s.action.code p.name ∧
      ∀ j < k, ∀ t, l[j]? = some t →
        g.firstUnbound? t.ordinal 0 t.action.inlets.parameters = none := by
  induction l with
  | nil => cases h
  | cons first rest ih =>
    rw [checkSteps] at h
    split at h
    · next p hp =>
      exact ⟨0, first, p, rfl, hp, (Except.error.inj h).symm,
        fun j hj => absurd hj (Nat.not_lt_zero j)⟩
    · next hfirst =>
      obtain ⟨k, s, p, hs, hp, he, hbefore⟩ := ih h
      refine ⟨k + 1, s, p, hs, hp, he, fun j hj t ht => ?_⟩
      cases j with
      | zero =>
        obtain rfl : first = t := by simpa using ht
        exact hfirst
      | succ j => exact hbefore j (Nat.lt_of_succ_lt_succ hj) t ht

theorem Unbound.firstUnbound?_ne_none {q : Parameter} {j : Nat} (h : g.Unbound s j q) :
    g.firstUnbound? s.ordinal 0 s.action.inlets.parameters ≠ none := by
  intro hnone
  have hbound := contains_of_firstUnbound? hnone h.inlet h.needed
  rw [Nat.zero_add] at hbound
  obtain ⟨source, hsource⟩ := exists_sourceOf?_of_contains hbound
  rw [h.unbound] at hsource
  cases hsource

section

variable (hnumbered : ∀ k (s : Step), g.steps[k]? = some s → s.ordinal = k)

include hnumbered

theorem FirstUnbound.unique {s' : Step} {i' : Nat} {p' : Parameter} (h : g.FirstUnbound s i p)
    (h' : g.FirstUnbound s' i' p') : s = s' ∧ p = p' := by
  obtain ⟨k, hs⟩ := List.getElem?_of_mem h.step
  obtain ⟨k', hs'⟩ := List.getElem?_of_mem h'.step
  -- Neither of them comes before the other.
  have hle := h.first s' i' p' h'.toUnbound
  have hge := h'.first s i p h.toUnbound
  obtain rfl : s = s' := by
    rw [hnumbered k s hs, hnumbered k' s' hs'] at hle hge
    obtain rfl : k = k' := by omega
    exact Option.some.inj (hs.symm.trans hs')
  obtain rfl : i = i' := by omega
  exact ⟨rfl, Option.some.inj (h.inlet.symm.trans h'.inlet)⟩

theorem exists_firstUnbound_of_validate {code : String} {e : Error}
    (h : g.validate code = .error e) :
    ∃ s i p, g.FirstUnbound s i p ∧ e = .unboundInlet code s.ordinal s.action.code p.name := by
  obtain ⟨k, s, p, hs, hp, rfl, hbefore⟩ := exists_of_checkSteps h
  obtain ⟨i, hi, hc, hnone, hbound⟩ := exists_of_firstUnbound? hp
  rw [Nat.zero_add] at hnone
  refine ⟨s, i, p, ⟨⟨List.mem_of_getElem? hs, hi, hc, hnone⟩, fun t j q ht => ?_⟩, rfl⟩
  obtain ⟨m, hm⟩ := List.getElem?_of_mem ht.step
  have hordinal := hnumbered k s hs
  have hordinal' := hnumbered m t hm
  -- The other inlet is at a later step, at the same one, or at a step where nothing was found.
  rcases Nat.lt_trichotomy k m with hlt | rfl | hgt
  · exact .inl (by omega)
  · obtain rfl := Option.some.inj (hs.symm.trans hm)
    refine .inr ⟨rfl, Nat.le_of_not_lt fun hlt => ?_⟩
    obtain ⟨source, hsource⟩ := exists_sourceOf?_of_contains (hbound j hlt q ht.inlet ht.needed)
    rw [Nat.zero_add, ht.unbound] at hsource
    cases hsource
  · exact absurd (hbefore m hgt t hm) ht.firstUnbound?_ne_none

/-- The check fails for the first unbound inlet. -/
theorem validate_eq_error_iff {code : String} {e : Error} :
    g.validate code = .error e ↔
      ∃ s i p, g.FirstUnbound s i p ∧ e = .unboundInlet code s.ordinal s.action.code p.name := by
  refine ⟨exists_firstUnbound_of_validate hnumbered, ?_⟩
  rintro ⟨s, i, p, hfirst, rfl⟩
  cases hvalidate : g.validate code with
  | ok u =>
    -- The check would have found something at the step.
    have hnone := firstUnbound?_of_checkSteps hvalidate hfirst.step
    exact absurd hnone hfirst.firstUnbound?_ne_none
  | error e =>
    obtain ⟨s', i', p', hfirst', rfl⟩ := exists_firstUnbound_of_validate hnumbered hvalidate
    obtain ⟨rfl, rfl⟩ := hfirst.unique hnumbered hfirst'
    rfl

end

end Dataflow.Graph
