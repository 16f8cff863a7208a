import Dataflow.Proofs.Builder.Handles

/-!
# Built algorithms

A build puts the results of a builder at the outlets of the algorithm, checks the inlets of
the steps and registers what it made. Whatever the builder did, the graph that a build
returns is well formed (`Action.Built.wellFormed`), so every bind of it can be described by
the names of its ports (`build_wellFormed`).
-/

namespace Dataflow

namespace Scope

variable {s : Scope} {held : List StepHandle} {binds : OrderedMap Destination Source}
  {sources : List Source} {i : Nat}

theorem mem_entries_bindOutlets {d : Destination} {source : Source}
    (h : (d, source) ∈ (bindOutlets binds i sources).entries) :
    (∃ j, d = .outlet (i + j) ∧ sources[j]? = some source) ∨ (d, source) ∈ binds.entries := by
  induction sources generalizing binds i with
  | nil => exact .inr h
  | cons first rest ih =>
    rcases ih h with ⟨j, rfl, hj⟩ | hmem
    · exact .inl ⟨j + 1, by rw [Nat.add_right_comm, Nat.add_assoc], by simpa using hj⟩
    · rcases OrderedMap.mem_entries_insert hmem with heq | hmem
      · cases heq
        exact .inl ⟨0, rfl, rfl⟩
      · exact .inr hmem

theorem get?_bindOutlets_of_lt {n : Nat} (h : n < i) :
    (bindOutlets binds i sources).get? (.outlet n) = binds.get? (.outlet n) := by
  induction sources generalizing binds i with
  | nil => rfl
  | cons first rest ih =>
    -- The outlets that are bound from here on have greater indices.
    rw [bindOutlets, ih (by omega), OrderedMap.get?_insert, if_neg]
    rintro ⟨⟩
    omega

theorem get?_bindOutlets {j : Nat} (h : j < sources.length) :
    (bindOutlets binds i sources).get? (.outlet (i + j)) = some sources[j] := by
  induction sources generalizing binds i j with
  | nil => cases h
  | cons first rest ih =>
    cases j with
    | zero =>
      rw [bindOutlets, get?_bindOutlets_of_lt (by omega), OrderedMap.get?_insert]
      simp
    | succ j =>
      rw [bindOutlets, ← Nat.add_assoc, Nat.add_right_comm]
      exact ih (by simpa using h)

/-- Putting issued results at the outlets gives a consistent graph with every outlet
    bound. -/
theorem Sound.finish (h : s.Sound held) {produced : Produced}
    (ho : ∀ output ∈ produced.outputs, s.IssuedOutput held output) {g : Graph}
    (hg : s.finish produced = .ok g) :
    g.Consistent s.algorithm ∧
      ∀ i < s.algorithm.outlets.size, ∃ source, g.sourceOf? (.outlet i) = some source := by
  rw [Scope.finish] at hg
  simp only at hg
  split at hg
  · cases hg
  · next hlen =>
    simp only [Except.bind_eq_ok, Except.pure_eq_ok] at hg
    obtain ⟨sources, hsources, rfl⟩ := hg
    have hsize : sources.length = s.algorithm.outlets.size :=
      (Except.length_of_mapM hsources).trans (not_not.1 hlen)
    have hexists {source : Source} (hmem : source ∈ sources) :
        s.graph.HasSource s.algorithm source := by
      obtain ⟨output, houtput, hsource⟩ := Except.exists_of_mem_mapM hsources hmem
      exact h.hasSource (ho output houtput) hsource
    refine ⟨⟨h.consistent.numbered, fun d source hd => ?_, fun d source hd => ?_⟩, fun i hi => ?_⟩
    · rcases mem_entries_bindOutlets hd with ⟨j, -, hj⟩ | hmem
      · exact hexists (List.mem_of_getElem? hj)
      · exact h.consistent.sources d source hmem
    · rcases mem_entries_bindOutlets hd with ⟨j, rfl, hj⟩ | hmem
      · show 0 + j < s.algorithm.outlets.size
        have := (List.getElem?_eq_some_iff.1 hj).1
        omega
      · exact h.consistent.destinations d source hmem
    · rw [← Nat.zero_add i]
      exact ⟨_, get?_bindOutlets (hsize ▸ hi)⟩

end Scope

namespace Builder

variable {builder : Fallible Produced} {identity : Identity} {shell : Action} {g : Graph}

theorem Genuine.wellFormed (h : Genuine builder identity shell)
    (hg : (Builder.graph builder identity shell).result = .ok g) : g.WellFormed shell := by
  -- What the program leaves is sound, and its results are issued by what it left.
  obtain ⟨left, hsound, hissued⟩ := h.sound (Scope.sound_start identity shell)
  simp only [Builder.graph, Except.bind_eq_ok, Except.pure_eq_ok] at hg
  obtain ⟨produced, hproduced, g', hfinish, _, hcheck, rfl⟩ := hg
  obtain ⟨hconsistent, houtlets⟩ := hsound.finish (hissued produced hproduced) hfinish
  have halgorithm := algorithm_run (ExceptT.run builder) (.start identity shell)
  rw [halgorithm] at hconsistent houtlets
  exact ⟨hconsistent, houtlets, fun k s hs i p hp hc =>
    hconsistent.inlets_of_validate hcheck hs hp hc⟩

end Builder

namespace Registration

variable {α β : Type}

theorem result_bind (x : Registration α) (f : α → Registration β) (c : Catalog) :
    ((x >>= f) c).1.result = (x c).1.result >>= fun a => (f a (x c).2).1.result := by
  show (x.bind f c).1.result = _
  rcases hx : x c with ⟨r, left⟩
  rw [Registration.bind, hx]
  dsimp only
  cases r.result <;> rfl

end Registration

namespace Action

variable {c : Catalog} {identity : Identity} {code : String} {inlets outlets : List Parameter}
  {builder : Builder.Fallible Produced} {a : Action} {g : Graph}

/-- What a build returns is its shell with the graph that the builder gives. -/
theorem exists_graph_of_build
    (h : (Catalog.build identity code inlets outlets builder c).1.result = .ok a) :
    ∃ shell g, c.shell code inlets outlets = .ok shell ∧
      (Builder.graph builder identity shell).result = .ok g ∧
      a = { shell with graph := some g } := by
  rw [Catalog.build, Registration.result_bind, Except.bind_eq_ok] at h
  obtain ⟨shell, hshell, h⟩ := h
  rw [Registration.result_bind, Except.bind_eq_ok] at h
  obtain ⟨g, hg, h⟩ := h
  rw [Registration.result_bind, Except.bind_eq_ok] at h
  obtain ⟨_, -, h⟩ := h
  rw [Registration.result_bind, Except.bind_eq_ok] at h
  obtain ⟨_, -, h⟩ := h
  exact ⟨shell, g, hshell, hg, (Except.pure_eq_ok.1 h).symm⟩

/-- The action was returned by a build, in some catalog, whose builder made no handle up. -/
def Built (a : Action) : Prop :=
  ∃ (c : Catalog) (identity : Identity) (code : String) (inlets outlets : List Parameter)
    (builder : Builder.Fallible Produced),
    (∀ shell, c.shell code inlets outlets = .ok shell → Builder.Genuine builder identity shell) ∧
      (Catalog.build identity code inlets outlets builder c).1.result = .ok a

/-- A built algorithm has a well-formed graph. -/
theorem Built.wellFormed (h : a.Built) : ∃ g, a.graph = some g ∧ g.WellFormed a := by
  obtain ⟨c, identity, code, inlets, outlets, builder, hgenuine, hbuild⟩ := h
  obtain ⟨shell, g, hshell, hg, rfl⟩ := exists_graph_of_build hbuild
  obtain ⟨⟨hnumbered, hsources, hdestinations⟩, houtlets, hinlets⟩ :=
    (hgenuine shell hshell).wellFormed hg
  -- Being well formed is a matter of the code and the ports, which the graph leaves alone.
  refine ⟨g, rfl, ⟨hnumbered, fun d source hd => ?_, fun d source hd => ?_⟩, houtlets, hinlets⟩
  · have := hsources d source hd
    cases source <;> exact this
  · have := hdestinations d source hd
    cases d <;> exact this

theorem Built.wellFormed_of_graph (h : a.Built) (hg : a.graph = some g) : g.WellFormed a := by
  obtain ⟨g', hg', hwf⟩ := h.wellFormed
  obtain rfl := Option.some.inj (hg.symm.trans hg')
  exact hwf

end Action

/-- Whatever the builder does, and whether or not it goes on after calls that fail, what a
    build returns has a well-formed graph, and its binds are described by names. -/
theorem build_wellFormed {c : Catalog} {identity : Identity} {code : String}
    {inlets outlets : List Parameter} {builder : Builder.Fallible Produced} {a : Action}
    (hgenuine : ∀ shell, c.shell code inlets outlets = .ok shell →
      Builder.Genuine builder identity shell)
    (hbuild : (Catalog.build identity code inlets outlets builder c).1.result = .ok a) :
    ∃ g, a.graph = some g ∧ g.WellFormed a ∧
      ∀ d source, (d, source) ∈ g.binds.entries →
        g.NamesSource a source (g.describeSource a source) ∧
          g.NamesDestination a d (g.describeDestination a d) := by
  have hbuilt : a.Built := ⟨c, identity, code, inlets, outlets, builder, hgenuine, hbuild⟩
  obtain ⟨g, hg, hwf⟩ := hbuilt.wellFormed
  refine ⟨g, hg, hwf, fun d source hmem => ⟨?_, ?_⟩⟩
  · exact hwf.toConsistent.describeSource (hwf.sources d source hmem)
  · exact hwf.toConsistent.describeDestination (hwf.destinations d source hmem)

/-! ## A relay -/

namespace Relay

/-- An action that passes a value on. -/
def echo : Action := ⟨"Echo", ⟨[⟨"a", .any⟩], by simp⟩, ⟨[⟨"res", .any⟩], by simp⟩, none⟩

/-- An action that receives the context and joins two values. -/
def join : Action where
  code := "Join"
  inlets := ⟨[.context, ⟨"left", .any⟩, ⟨"right", .any⟩], by simp [Parameter.context]⟩
  outlets := ⟨[⟨"res", .any⟩], by simp⟩
  graph := none

/-- A builder that joins an echo of the inlet with a literal. In between it tries a
    terminal that it kept from another scope, and goes on when that is refused. -/
def builder : Builder.Fallible Produced := do
  let a ← Builder.inlet (.code "a")
  let echoed ← Builder.invoke echo [.port a] []
  let joined ← Builder.place join
  try Builder.connect (.port ⟨7, .inlet 0⟩) (← joined.inlet (.code "left"))
  catch _ => pure ()
  Builder.connect (.step echoed) (← joined.inlet (.code "left"))
  Builder.connect (.const (.json .null)) (← joined.inlet (.code "right"))
  return .single (.step joined)

/-- The algorithm without its graph. -/
def shell : Action := ⟨"Relay", ⟨[⟨"a", .any⟩], by simp⟩, ⟨[⟨"res", .any⟩], by simp⟩, none⟩

theorem genuine : Builder.Genuine builder 0 shell := by
  refine ⟨.port (.inlet (.code "a") rfl), .stepInlet List.mem_cons_self (.index 0) rfl, ?_⟩
  refine ⟨.port (.foreign (by decide)), .stepInlet List.mem_cons_self (.code "left") rfl, ?_⟩
  refine ⟨.step (by simp), .stepInlet List.mem_cons_self (.code "left") rfl, ?_⟩
  refine ⟨.const _, .stepInlet List.mem_cons_self (.code "right") rfl, ?_⟩
  intro p hp output ho
  obtain rfl := Except.ok.inj hp
  obtain rfl := List.mem_singleton.1 ho
  exact .step (by simp)

/-- The graph of the relay. -/
def graph : Graph where
  steps := [⟨"Relay", 0, echo⟩, ⟨"Relay", 1, join⟩]
  binds := .ofList [(.stepInlet ⟨0, 0⟩, .inlet 0), (.stepInlet ⟨1, 1⟩, .stepOutlet ⟨0, 0⟩),
    (.stepInlet ⟨1, 2⟩, .const (.json .null)), (.outlet 0, .stepOutlet ⟨1, 0⟩)]

/-- The relay. -/
def relay : Action := { shell with graph := some graph }

theorem genuine_of_shell (s : Action)
    (h : (∅ : Catalog).shell "Relay" [⟨"a", .any⟩] [⟨"res", .any⟩] = .ok s) :
    Builder.Genuine builder 0 s := by
  obtain rfl := Except.ok.inj h
  exact genuine

theorem build_eq :
    (Catalog.build 0 "Relay" [⟨"a", .any⟩] [⟨"res", .any⟩] builder ∅).1.result = .ok relay :=
  rfl

theorem built : relay.Built := ⟨∅, 0, _, _, _, builder, genuine_of_shell, build_eq⟩

end Relay

theorem build_wellFormed_relay :
    (∀ s, (∅ : Catalog).shell "Relay" [⟨"a", .any⟩] [⟨"res", .any⟩] = .ok s →
        Builder.Genuine Relay.builder 0 s) ∧
      (Catalog.build 0 "Relay" [⟨"a", .any⟩] [⟨"res", .any⟩] Relay.builder ∅).1.result =
        .ok Relay.relay ∧
      ∃ g, Relay.relay.graph = some g ∧ g.WellFormed Relay.relay ∧
        ∀ d source, (d, source) ∈ g.binds.entries →
          g.NamesSource Relay.relay source (g.describeSource Relay.relay source) ∧
            g.NamesDestination Relay.relay d (g.describeDestination Relay.relay d) :=
  ⟨Relay.genuine_of_shell, Relay.build_eq,
    build_wellFormed Relay.genuine_of_shell Relay.build_eq⟩

end Dataflow
