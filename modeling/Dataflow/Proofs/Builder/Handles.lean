import Dataflow.Builder
import Dataflow.Proofs.Graph

/-!
# Handles

A builder program gets its handles from the calls that it makes: it never makes one up. It
may keep handles of other scopes, which all carry other identities, and it may go on after
a call that failed. `Builder.UsesIssued` says so along the run of a program: every handle
that it passes to a call, and every handle among its results, was issued by an earlier call
or by another scope.

The invariant behind a build is `Scope.Sound`: the steps are numbered in order, the step
handles that were issued point into them, and the binds join ports that exist. Each call
keeps it (`Scope.Sound.register`, `Scope.Sound.bind`), and so does a whole program
(`Builder.UsesIssued.sound`).
-/

namespace Dataflow

/-- The terminals that a program can have while it holds some step handles of the scope. -/
inductive Scope.Issued (s : Scope) (held : List StepHandle) : Terminal → Prop
  /-- Another scope issued it. -/
  | foreign {t : Terminal} (h : t.scope ≠ s.identity) : Issued s held t
  /-- It is an inlet of the algorithm. -/
  | inlet {t : Terminal} (key : PortKey) (h : s.inlet key = .ok t) : Issued s held t
  /-- It is an inlet of a step. -/
  | stepInlet {t : Terminal} {handle : StepHandle} (hheld : handle ∈ held) (key : PortKey)
    (h : handle.inlet key = .ok t) : Issued s held t
  /-- It is an outlet of a step. -/
  | stepOutlet {t : Terminal} {handle : StepHandle} (hheld : handle ∈ held) (key : PortKey)
    (h : handle.outlet key = .ok t) : Issued s held t

/-- The outputs that a program can have while it holds some step handles of the scope. -/
inductive Scope.IssuedOutput (s : Scope) (held : List StepHandle) : Output → Prop
  /-- It is an issued terminal. -/
  | port {t : Terminal} (h : s.Issued held t) : IssuedOutput s held (.port t)
  /-- It is a step of another scope. -/
  | foreign {handle : StepHandle} (h : handle.scope ≠ s.identity) :
    IssuedOutput s held (.step handle)
  /-- It is a step that was issued. -/
  | step {handle : StepHandle} (h : handle ∈ held) : IssuedOutput s held (.step handle)
  /-- It is a literal. -/
  | const (v : Value) : IssuedOutput s held (.const v)

namespace Builder

variable {α : Type}

/-- A program that starts in a scope, holding some of its step handles, passes only issued
    handles to its calls; what it ends with satisfies a condition. -/
def UsesIssued (post : α → List StepHandle → Scope → Prop) :
    Builder α → List StepHandle → Scope → Prop
  | done a, held, s => post a held s
  | inspect next, held, s => (next s).UsesIssued post held s
  | register a next, held, s =>
    (next (s.register a).1).UsesIssued post ((s.register a).1 :: held) (s.register a).2
  | bind source destination next, held, s =>
    s.IssuedOutput held source ∧ s.Issued held destination ∧
      match s.bind source destination with
      | .ok s => (next (.ok ())).UsesIssued post held s
      | .error e => (next (.error e)).UsesIssued post held s

/-- The condition on the end of a builder: its results, if there are any, are issued. -/
def ResultsIssued (produced : Except Error Produced) (held : List StepHandle) (s : Scope) : Prop :=
  ∀ p, produced = .ok p → ∀ output ∈ p.outputs, s.IssuedOutput held output

/-- A builder that makes no handle up, in a fresh scope of an algorithm. -/
def Genuine (builder : Fallible Produced) (identity : Identity) (shell : Action) : Prop :=
  (ExceptT.run builder).UsesIssued ResultsIssued [] (.start identity shell)

end Builder

namespace Scope

/-- The graph under construction. -/
def graph (s : Scope) : Graph := ⟨s.steps, s.binds⟩

/-- What holds of a scope throughout a build, with the step handles that it issued. -/
structure Sound (s : Scope) (held : List StepHandle) : Prop where
  /-- The steps are numbered and the binds join ports that exist. -/
  consistent : s.graph.Consistent s.algorithm
  /-- The step handles point into the steps. -/
  points : ∀ handle ∈ held,
    ∃ step, s.steps[handle.ordinal]? = some step ∧ step.action = handle.action

variable {s s' : Scope} {held : List StepHandle}

/-- All inlets of the algorithm are issued. -/
theorem issued_inlet {i : Nat} (hi : i < s.algorithm.inlets.size) :
    s.Issued held ⟨s.identity, .inlet i⟩ := by
  obtain ⟨p, hp⟩ := Ports.exists_getElem? hi
  have hport : s.algorithm.port .inward (.index i) = .ok ⟨s.algorithm.code, .inward, i, p⟩ :=
    Action.port_of_indexOf? (if_pos hi) hp
  refine .inlet (.index i) ?_
  rw [Scope.inlet, hport]
  rfl

theorem sound_start (identity : Identity) (shell : Action) : (start identity shell).Sound [] where
  consistent :=
    { numbered := fun _ _ h => by simp [graph, start] at h
      sources := fun _ _ h => by cases h
      destinations := fun _ _ h => by cases h }
  points := fun _ h => by cases h

theorem hasPort_of_portIndex (h : s.Sound held) {handle : StepHandle} (hheld : handle ∈ held)
    {direction : Direction} {key : PortKey} {i : Nat}
    (hi : handle.portIndex direction key = .ok i) :
    s.graph.HasPort direction ⟨handle.ordinal, i⟩ := by
  obtain ⟨step, hstep, haction⟩ := h.points handle hheld
  rw [StepHandle.portIndex] at hi
  split at hi
  · next port hport =>
    rw [← Except.ok.inj hi]
    exact ⟨step, hstep, haction ▸ Action.index_lt_of_port hport⟩
  · cases hi

/-- What an issued terminal of the scope denotes. -/
def Denotes (s : Scope) : TerminalPort → Prop
  | .inlet i => i < s.algorithm.inlets.size
  | .stepInlet port => s.graph.HasPort .inward port
  | .stepOutlet port => s.graph.HasPort .outward port

/-- A terminal that was issued by the scope denotes a port that exists. -/
theorem Sound.denotes (h : s.Sound held) {t : Terminal} (ht : s.Issued held t)
    (hscope : t.scope = s.identity) : s.Denotes t.port := by
  cases ht with
  | foreign hne => exact absurd hscope hne
  | inlet _ hinlet =>
    simp only [Scope.inlet, Except.bind_eq_ok, Except.pure_eq_ok] at hinlet
    obtain ⟨port, hport, rfl⟩ := hinlet
    exact Action.index_lt_of_port hport
  | stepInlet hheld _ hinlet =>
    simp only [StepHandle.inlet, Except.bind_eq_ok, Except.pure_eq_ok] at hinlet
    obtain ⟨i, hi, rfl⟩ := hinlet
    exact hasPort_of_portIndex h hheld hi
  | stepOutlet hheld _ houtlet =>
    simp only [StepHandle.outlet, Except.bind_eq_ok, Except.pure_eq_ok] at houtlet
    obtain ⟨i, hi, rfl⟩ := houtlet
    exact hasPort_of_portIndex h hheld hi

theorem checkIssued_ok {scope : Identity} (h : s.checkIssued scope = .ok ()) :
    scope = s.identity := by
  rw [checkIssued] at h
  split at h
  · assumption
  · cases h

theorem hasSource_of_sourceOfTerminal (h : s.Sound held) {t : Terminal} (ht : s.Issued held t)
    {source : Source} (hs : s.sourceOfTerminal t = .ok source) :
    s.graph.HasSource s.algorithm source := by
  rw [sourceOfTerminal, Except.bind_eq_ok] at hs
  obtain ⟨_, hcheck, hport⟩ := hs
  have hdenotes := h.denotes ht (checkIssued_ok hcheck)
  split at hport
  · next i hi =>
    rw [hi] at hdenotes
    exact Except.pure_eq_ok.1 hport ▸ hdenotes
  · next port hi =>
    rw [hi] at hdenotes
    exact Except.pure_eq_ok.1 hport ▸ hdenotes
  · cases hport

/-- An issued output resolves to a source that exists. -/
theorem Sound.hasSource (h : s.Sound held) {output : Output} (ho : s.IssuedOutput held output)
    {source : Source} (hs : s.resolveSource output = .ok source) :
    s.graph.HasSource s.algorithm source := by
  cases ho with
  | port ht => exact hasSource_of_sourceOfTerminal h ht hs
  | const v =>
    obtain rfl := Except.pure_eq_ok.1 hs
    trivial
  | foreign hne =>
    rw [resolveSource, Except.bind_eq_ok] at hs
    obtain ⟨_, hcheck, -⟩ := hs
    exact absurd (checkIssued_ok hcheck) hne
  | step hheld =>
    rw [resolveSource, Except.bind_eq_ok] at hs
    obtain ⟨_, -, hs⟩ := hs
    simp only at hs
    split at hs
    · cases hs
    · obtain ⟨t, houtlet, ht⟩ := Except.bind_eq_ok.1 hs
      exact hasSource_of_sourceOfTerminal h (.stepOutlet hheld _ houtlet) ht

/-- An issued terminal resolves to a destination that exists. -/
theorem Sound.hasDestination (h : s.Sound held) {t : Terminal} (ht : s.Issued held t)
    {d : Destination} (hd : s.resolveDestination t = .ok d) :
    s.graph.HasDestination s.algorithm d := by
  rw [resolveDestination, Except.bind_eq_ok] at hd
  obtain ⟨_, hcheck, hport⟩ := hd
  have hdenotes := h.denotes ht (checkIssued_ok hcheck)
  split at hport
  · next port hi =>
    rw [hi] at hdenotes
    exact Except.pure_eq_ok.1 hport ▸ hdenotes
  · cases hport
  · cases hport

/-! ### The calls -/

theorem hasPort_register {a : Action} {direction : Direction} {port : StepPort}
    (h : s.graph.HasPort direction port) : (s.register a).2.graph.HasPort direction port := by
  obtain ⟨step, hstep, hport⟩ := h
  refine ⟨step, ?_, hport⟩
  exact (List.getElem?_append_left (List.getElem?_eq_some_iff.1 hstep).1).trans hstep

theorem hasSource_register {a : Action} {source : Source}
    (h : s.graph.HasSource s.algorithm source) :
    (s.register a).2.graph.HasSource s.algorithm source := by
  cases source with
  | inlet i => exact h
  | stepOutlet port => exact hasPort_register h
  | const v => trivial

theorem hasDestination_register {a : Action} {d : Destination}
    (h : s.graph.HasDestination s.algorithm d) :
    (s.register a).2.graph.HasDestination s.algorithm d := by
  cases d with
  | stepInlet port => exact hasPort_register h
  | outlet i => exact h

/-- Placing a step keeps the invariant, with the new handle. -/
theorem Sound.register (h : s.Sound held) (a : Action) :
    (s.register a).2.Sound ((s.register a).1 :: held) := by
  have hlast : (s.register a).2.steps[s.steps.length]? =
      some ⟨s.algorithm.code, s.steps.length, a⟩ := List.getElem?_concat_length
  have hold {k : Nat} {step : Step} (hstep : s.steps[k]? = some step) :
      (s.register a).2.steps[k]? = some step :=
    (List.getElem?_append_left (List.getElem?_eq_some_iff.1 hstep).1).trans hstep
  refine ⟨⟨fun k step hstep => ?_, fun d source hd => ?_, fun d source hd => ?_⟩, ?_⟩
  · -- A step of the new list is an old one or the last one.
    rcases Nat.lt_trichotomy k s.steps.length with hk | rfl | hk
    · exact h.consistent.numbered k step ((List.getElem?_append_left hk).symm.trans hstep)
    · obtain rfl := Option.some.inj (hlast.symm.trans hstep)
      exact ⟨rfl, rfl⟩
    · have hlen := (List.getElem?_eq_some_iff.1 hstep).1
      simp only [graph, Scope.register, List.length_append, List.length_singleton] at hlen
      omega
  · exact hasSource_register (h.consistent.sources d source hd)
  · exact hasDestination_register (h.consistent.destinations d source hd)
  · intro handle hhandle
    rcases List.mem_cons.1 hhandle with rfl | hhandle
    · exact ⟨_, hlast, rfl⟩
    · obtain ⟨step, hstep, haction⟩ := h.points handle hhandle
      exact ⟨step, hold hstep, haction⟩

/-- A bind of issued handles keeps the invariant. -/
theorem Sound.bind (h : s.Sound held) {output : Output} {t : Terminal}
    (ho : s.IssuedOutput held output) (ht : s.Issued held t) (hs : s.bind output t = .ok s') :
    s'.Sound held := by
  simp only [Scope.bind, Except.bind_eq_ok, Except.pure_eq_ok] at hs
  obtain ⟨source, hsource, d, hd, rfl⟩ := hs
  have hnew {d' : Destination} {source' : Source}
      (hmem : (d', source') ∈ (s.binds.insert d source).entries) :
      s.graph.HasSource s.algorithm source' ∧ s.graph.HasDestination s.algorithm d' := by
    rcases OrderedMap.mem_entries_insert hmem with heq | hmem
    · cases heq
      exact ⟨h.hasSource ho hsource, h.hasDestination ht hd⟩
    · exact ⟨h.consistent.sources d' source' hmem, h.consistent.destinations d' source' hmem⟩
  exact ⟨⟨h.consistent.numbered, fun _ _ hmem => (hnew hmem).1, fun _ _ hmem => (hnew hmem).2⟩,
    h.points⟩

theorem algorithm_bind {output : Output} {t : Terminal} (hs : s.bind output t = .ok s') :
    s'.algorithm = s.algorithm := by
  simp only [Scope.bind, Except.bind_eq_ok, Except.pure_eq_ok] at hs
  obtain ⟨_, -, _, -, rfl⟩ := hs
  rfl

end Scope

namespace Builder

variable {α : Type}

/-- A program never changes the algorithm that it builds. -/
theorem algorithm_run (x : Builder α) (s : Scope) : (x.run s).2.1.algorithm = s.algorithm := by
  induction x generalizing s with
  | done a => rfl
  | inspect next ih => exact ih s s
  | register a next ih => exact ih _ _
  | bind source destination next ih =>
    rw [run]
    split
    · next hbind => exact (ih _ _).trans (Scope.algorithm_bind hbind)
    · exact ih _ _

/-- A program that uses issued handles keeps the invariant of its scope, whatever it does
    with the errors of its calls. -/
theorem UsesIssued.sound {post : α → List StepHandle → Scope → Prop} {x : Builder α}
    {held : List StepHandle} {s : Scope} (hx : x.UsesIssued post held s) (h : s.Sound held) :
    ∃ left, (x.run s).2.1.Sound left ∧ post (x.run s).1 left (x.run s).2.1 := by
  induction x generalizing held s with
  | done a => exact ⟨held, h, hx⟩
  | inspect next ih => exact ih s hx h
  | register a next ih => exact ih _ hx (h.register a)
  | bind source destination next ih =>
    rw [UsesIssued] at hx
    obtain ⟨hsource, hdestination, hnext⟩ := hx
    rw [run]
    revert hnext
    rcases hbind : s.bind source destination with e | s'
    · -- A bind that is refused leaves the scope as it is, and the program may go on.
      intro hnext
      exact ih _ hnext h
    · intro hnext
      exact ih _ hnext (h.bind hsource hdestination hbind)

end Builder

end Dataflow
