import Dataflow.Proofs.Builder.Calls
import Dataflow.Proofs.Catalog.Command
import Dataflow.Proofs.Evaluation.Rewiring

/-!
# Builds and their calls

A build is told by the calls of its builder and the results that the builder ends with
(`Builder.Builds`). The steps of the graph are the actions that the calls place; its binds are
those that the calls make, then those of the outlets. Of several binds of an inlet the last one
gives its source, and the first one its place in the list
(`Builder.Builds.exists_graph`, `calls_determine_build`).

As the place of a bind is nothing to an evaluation, two builders whose calls place the same
actions, leave the same source at every inlet and end with the same results build algorithms
that no evaluation can tell apart, however they went about it.
-/

namespace Dataflow

namespace Builder

/-- The build of an algorithm by a builder that makes calls and ends with results. -/
structure Builds (builder : Fallible Produced) (c : Catalog) (identity : Identity)
    (code : String) (inlets outlets : List Parameter) (calls : List Call)
    (results : List Output) (a : Action) : Prop where
  /-- The build returns the algorithm. -/
  result : (Catalog.build identity code inlets outlets builder c).1.result = .ok a
  /-- The builder makes the calls, in a fresh scope. -/
  makes : (ExceptT.run builder).Makes (.start identity { a with graph := none }) calls
  /-- The builder ends with the results. -/
  produced : ∃ produced, produced.outputs = results ∧
    ((ExceptT.run builder).run (.start identity { a with graph := none })).1 = .ok produced

/-- The binds of sources to the outlets, in order. -/
def outletBinds (sources : List Source) : List (Destination × Source) :=
  sources.mapIdx fun i source => (.outlet i, source)

variable {sources : List Source}

theorem map_fst_outletBinds :
    (outletBinds sources).map Prod.fst = (List.range sources.length).map .outlet := by
  refine List.ext_getElem (by simp [outletBinds]) fun i hi _ => ?_
  simp [outletBinds]

theorem mem_outletBinds {i : Nat} {source : Source} :
    (.outlet i, source) ∈ outletBinds sources ↔ sources[i]? = some source := by
  rw [outletBinds, List.mem_mapIdx, List.getElem?_eq_some_iff]
  constructor
  · rintro ⟨j, hj, heq⟩
    cases heq
    exact ⟨hj, rfl⟩
  · rintro ⟨hi, rfl⟩
    exact ⟨i, hi, rfl⟩

end Builder

namespace Scope

theorem bindOutlets_eq (binds : OrderedMap Destination Source) (i : Nat) (sources : List Source) :
    bindOutlets binds i sources =
      (sources.mapIdx fun j source => (.outlet (i + j), source)).foldl
        (fun m bound => m.insert bound.1 bound.2) binds := by
  induction sources generalizing binds i with
  | nil => rfl
  | cons source rest ih =>
    rw [bindOutlets, ih, List.mapIdx_cons, List.foldl_cons]
    simp only [Nat.add_assoc, Nat.add_comm 1]
    rfl

end Scope

namespace Builder

variable {builder : Fallible Produced} {c : Catalog} {identity : Identity} {code : String}
  {inlets outlets : List Parameter} {calls : List Call} {results : List Output} {a : Action}
  {sources : List Source}

/-- The outlets are bound after all inlets, at places of their own. -/
theorem entries_bindOutlets {k : Nat} :
    (Scope.bindOutlets (.ofList (Call.allBinds identity k calls)) 0 sources).entries =
      (OrderedMap.ofList (Call.allBinds identity k calls)).entries ++ outletBinds sources := by
  rw [Scope.bindOutlets_eq]
  simp only [Nat.zero_add]
  refine OrderedMap.entries_foldl_insert ?_
  show (((OrderedMap.ofList (Call.allBinds identity k calls)).entries ++
    outletBinds sources).map Prod.fst).Nodup
  rw [List.map_append, map_fst_outletBinds]
  have houtlet : Function.Injective Destination.outlet := fun _ _ => Destination.outlet.inj
  refine List.nodup_append'.2 ⟨OrderedMap.nodup _, List.nodup_range.map houtlet, ?_⟩
  intro d hd hd'
  obtain ⟨i, -, rfl⟩ := List.mem_map.1 hd'
  exact Call.outlet_not_mem_keys hd

/-- What a build returns has the code and the ports that it was given. -/
theorem shell_of_build
    (h : (Catalog.build identity code inlets outlets builder c).1.result = .ok a) :
    Action.ofParameters code inlets outlets = .ok { a with graph := none } ∧
      ∃ g, a.graph = some g ∧
        (Builder.graph builder identity { a with graph := none }).result = .ok g := by
  obtain ⟨shell, g, hshell, hg, rfl⟩ := Action.exists_graph_of_build h
  obtain ⟨_, -, hshell⟩ := Except.bind_eq_ok.1 hshell
  have hplain : ({ shell with graph := none } : Action) = shell := by
    obtain ⟨-, hgraph⟩ := Action.of_ofParameters hshell
    rw [← hgraph]
    rcases shell
    rfl
  rw [hplain]
  exact ⟨hshell, g, rfl, hg⟩

/-- An algorithm that is built from parameters has these. -/
theorem Builds.parameters
    (h : Builds builder c identity code inlets outlets calls results a) :
    a.code = code ∧ a.inlets.parameters = inlets ∧ a.outlets.parameters = outlets := by
  obtain ⟨hshell, -⟩ := shell_of_build h.result
  exact ⟨(Action.of_ofParameters hshell).1,
    Action.parameters_of_ofParameters (a := { a with graph := none }) hshell⟩

/-- A build that returns an algorithm has calls and results. -/
theorem exists_builds
    (h : (Catalog.build identity code inlets outlets builder c).1.result = .ok a) :
    ∃ calls results, Builds builder c identity code inlets outlets calls results a := by
  obtain ⟨-, g, -, hg⟩ := shell_of_build h
  obtain ⟨calls, hcalls⟩ :=
    exists_makes (ExceptT.run builder) (.start identity { a with graph := none })
  simp only [Builder.graph, Except.bind_eq_ok] at hg
  obtain ⟨produced, hproduced, -⟩ := hg
  exact ⟨calls, produced.outputs, h, hcalls, produced, rfl, hproduced⟩

/-- With the binds of calls and those of the outlets a graph has, at an inlet, the source of its
    last bind; the inlets are listed first. -/
theorem sourceOf?_of_entries {g : Graph}
    (h : g.binds.entries = (OrderedMap.ofList (Call.allBinds identity 0 calls)).entries ++
      outletBinds sources) :
    (∀ port, g.sourceOf? (.stepInlet port) = Call.lastSource? identity calls port) ∧
      (∀ i, g.sourceOf? (.outlet i) = sources[i]?) ∧
      g.binds.keys =
        Call.destinations identity calls ++ (List.range sources.length).map .outlet := by
  refine ⟨fun port => ?_, fun i => ?_, ?_⟩
  · have hnone : (outletBinds sources).lookup (.stepInlet port) = none := by
      refine List.lookup_eq_none_iff.2 fun bound hbound => ?_
      obtain ⟨i, hi, rfl⟩ := List.mem_mapIdx.1 hbound
      rfl
    rw [Graph.sourceOf?, OrderedMap.get?, h, List.lookup_append, hnone, Option.or_none]
    exact OrderedMap.get?_ofList _ _
  · refine Option.ext fun source => ?_
    have hnot : (.outlet i, source) ∉
        (OrderedMap.ofList (Call.allBinds identity 0 calls)).entries :=
      fun hmem => Call.outlet_not_mem_keys (List.mem_map_of_mem hmem)
    rw [Graph.sourceOf?, OrderedMap.get?_eq_some_iff, h, List.mem_append, or_iff_right hnot,
      mem_outletBinds]
  · rw [OrderedMap.keys, h, List.map_append, map_fst_outletBinds]
    exact congrArg (· ++ _) (OrderedMap.keys_ofList_eq_eraseDups _)

/-- The graph of a build has the steps that its calls place and the sources that they bind last, and
    the results at the outlets. -/
theorem Builds.exists_graph (h : Builds builder c identity code inlets outlets calls results a) :
    ∃ (g : Graph) (sources : List Source), a.graph = some g ∧
      results.map (·.source? identity) = sources.map some ∧
      g.steps = (calls.flatMap Call.placed).mapIdx (fun k b => ⟨code, k, b⟩) ∧
      (∀ port, g.sourceOf? (.stepInlet port) = Call.lastSource? identity calls port) ∧
      (∀ i, g.sourceOf? (.outlet i) = sources[i]?) ∧
      g.binds.keys = Call.destinations identity calls ++
        (List.range a.outlets.size).map .outlet := by
  obtain ⟨hbuild, hcalls, produced, rfl, hproduced⟩ := h
  obtain ⟨hshell, g, hgraph, hg⟩ := shell_of_build hbuild
  simp only [Builder.graph, Except.bind_eq_ok, Except.pure_eq_ok] at hg
  obtain ⟨produced', hproduced', g', hfinish, _, -, rfl⟩ := hg
  obtain rfl := Except.ok.inj (hproduced.symm.trans hproduced')
  -- The scope that the builder leaves is known from its calls.
  rw [hcalls.scope_run, Scope.finish] at hfinish
  simp only at hfinish
  split at hfinish
  · cases hfinish
  · next hlength =>
    simp only [Except.bind_eq_ok, Except.pure_eq_ok] at hfinish
    obtain ⟨sources, hsources, rfl⟩ := hfinish
    have hsize : sources.length = a.outlets.size :=
      (Except.length_of_mapM hsources).trans (not_not.1 hlength)
    refine ⟨_, sources, hgraph, ?_, ?_, hsize ▸ sourceOf?_of_entries entries_bindOutlets⟩
    · rw [← Except.map_toOption_of_mapM hsources]
      refine List.map_congr_left fun output _ => ?_
      rw [Scope.toOption_resolveSource]
      rfl
    · have hcode : a.code = code := (Action.of_ofParameters hshell).1
      simp [Scope.withBinds, Scope.withSteps, Scope.start, hcode]

/-- Builds whose calls place the same actions and leave the same last sources, and whose results are
    the same, differ in the order of their binds at most. -/
theorem Builds.rewired {builder' : Fallible Produced} {c' : Catalog} {identity' : Identity}
    {calls' : List Call} {results' : List Output} {a' : Action}
    (h : Builds builder c identity code inlets outlets calls results a)
    (h' : Builds builder' c' identity' code inlets outlets calls' results' a')
    (hplaced : calls.flatMap Call.placed = calls'.flatMap Call.placed)
    (hlast : ∀ port, Call.lastSource? identity calls port = Call.lastSource? identity' calls' port)
    (hresults : results.map (·.source? identity) = results'.map (·.source? identity')) :
    a.Rewired a' := by
  obtain ⟨hshell, -⟩ := shell_of_build h.result
  obtain ⟨hshell', -⟩ := shell_of_build h'.result
  obtain ⟨g, sources, hg, hsources, hsteps, hinlets, houtlets, -⟩ := h.exists_graph
  obtain ⟨g', sources', hg', hsources', hsteps', hinlets', houtlets', -⟩ := h'.exists_graph
  obtain rfl : sources = sources' := by
    refine List.map_injective_iff.2 (Option.some_injective _) ?_
    rw [← hsources, ← hsources', hresults]
  have hsame : a' = { a with graph := some g' } := by
    have heq := Except.ok.inj (hshell.symm.trans hshell')
    rcases a
    rcases a'
    cases heq
    cases hg'
    rfl
  have hequal : g'.steps = g.steps := by rw [hsteps, hsteps', hplaced]
  rw [hsame]
  refine .algorithm hg (by rw [hequal]) (fun k s s' hs hs' => ?_) fun d _ => ?_
  · rw [hequal] at hs'
    obtain rfl := Option.some.inj (hs.symm.trans hs')
    exact .refl s.action
  · cases d with
    | stepInlet port => rw [hinlets, hinlets', hlast]
    | outlet i => rw [houtlets, houtlets']

end Builder

/-- What a builder builds is determined by its calls and its results. The steps of the graph are
    the actions that the calls place, in order. An inlet has the source of the last bind of it that
    a call makes, and an outlet has the result. The inlets are listed in the order in which they are
    bound first, and the outlets after them. So two builds of the same code and the same ports, by
    builders whose calls place the same actions and leave the same last source at every inlet, and
    which end with the same results, return algorithms that evaluate to the same run, events
    included, whatever the evaluator and the inputs are. -/
theorem calls_determine_build :
    (∀ builder c identity code inlets outlets a,
      (Catalog.build identity code inlets outlets builder c).1.result = .ok a →
        ∃ calls results, Builder.Builds builder c identity code inlets outlets calls results a) ∧
    (∀ builder c identity code inlets outlets calls results a,
      Builder.Builds builder c identity code inlets outlets calls results a →
        ∃ (g : Graph) (sources : List Source), a.graph = some g ∧
          results.map (·.source? identity) = sources.map some ∧
          g.steps = (calls.flatMap Builder.Call.placed).mapIdx (fun k b => ⟨code, k, b⟩) ∧
          (∀ port, g.sourceOf? (.stepInlet port) =
            Builder.Call.lastSource? identity calls port) ∧
          (∀ i, g.sourceOf? (.outlet i) = sources[i]?) ∧
          g.binds.keys = Builder.Call.destinations identity calls ++
            (List.range a.outlets.size).map .outlet) ∧
    ∀ builder₁ builder₂ c₁ c₂ identity₁ identity₂ code inlets outlets calls₁ calls₂ results₁
      results₂ a₁ a₂,
      Builder.Builds builder₁ c₁ identity₁ code inlets outlets calls₁ results₁ a₁ →
      Builder.Builds builder₂ c₂ identity₂ code inlets outlets calls₂ results₂ a₂ →
      calls₁.flatMap Builder.Call.placed = calls₂.flatMap Builder.Call.placed →
      (∀ port, Builder.Call.lastSource? identity₁ calls₁ port =
        Builder.Call.lastSource? identity₂ calls₂ port) →
      results₁.map (·.source? identity₁) = results₂.map (·.source? identity₂) →
        ∀ (ev : Evaluator) limit inputs,
          ev.evaluate limit a₂ inputs = ev.evaluate limit a₁ inputs := by
  refine ⟨fun _ _ _ _ _ _ _ h => Builder.exists_builds h, fun _ _ _ _ _ _ _ _ _ h => h.exists_graph,
    ?_⟩
  intro _ _ _ _ _ _ _ _ _ _ _ _ _ a₁ a₂ h₁ h₂ hplaced hlast hresults ev limit inputs
  have hev : ev.Resembles (fun _ _ _ => True) ev := ⟨Catalog.resembles_refl _ _, rfl, rfl⟩
  exact Evaluator.evaluate_of_resembles hev (h₁.rewired h₂ hplaced hlast hresults)
    fun _ _ _ _ _ _ => trivial

/-! ## The relay, built in two ways -/

namespace Relay

/-- A builder that invokes all its steps. The last invocation fails, as there is no second inlet;
    the builder goes on, and the step stays with its first argument. -/
def invoking : Builder.Fallible Produced := do
  let a ← Builder.inlet (.code "a")
  let echoed ← Builder.invoke echo [.port a] []
  let joined ← Builder.invoke join [] [("right", .const (.json .null)), ("left", .step echoed)]
  try let _ ← Builder.invoke echo [.step joined, .port a] []
  catch _ => pure ()
  return .single (.step joined)

/-- A builder that places the same steps and binds their inlets one by one, the first of them
    twice. -/
def binding : Builder.Fallible Produced := do
  let a ← Builder.inlet (.index 0)
  let echoed ← Builder.place echo
  Builder.connect (.const (.json .null)) (← echoed.inlet (.code "a"))
  Builder.connect (.port a) (← echoed.inlet (.index 0))
  let joined ← Builder.place join
  Builder.connect (.step echoed) (← joined.inlet (.code "left"))
  Builder.connect (.const (.json .null)) (← joined.inlet (.index 2))
  let last ← Builder.place echo
  Builder.connect (.step joined) (← last.inlet (.code "a"))
  return .single (.step joined)

/-- The calls of the first builder, in the scope `0`. -/
def invokingCalls : List Builder.Call :=
  [.invoke echo [.port ⟨0, .inlet 0⟩] [],
    .invoke join [] [("right", .const (.json .null)), ("left", .step ⟨0, 0, echo⟩)],
    .invoke echo [.step ⟨0, 1, join⟩, .port ⟨0, .inlet 0⟩] []]

/-- The calls of the second builder, in the scope `1`. -/
def bindingCalls : List Builder.Call :=
  [.register echo, .bind (.const (.json .null)) ⟨1, .stepInlet ⟨0, 0⟩⟩,
    .bind (.port ⟨1, .inlet 0⟩) ⟨1, .stepInlet ⟨0, 0⟩⟩, .register join,
    .bind (.step ⟨1, 0, echo⟩) ⟨1, .stepInlet ⟨1, 1⟩⟩,
    .bind (.const (.json .null)) ⟨1, .stepInlet ⟨1, 2⟩⟩, .register echo,
    .bind (.step ⟨1, 1, join⟩) ⟨1, .stepInlet ⟨2, 0⟩⟩]

/-- The graph of the relay with a last step that nobody reads, and with these binds of inlets. -/
def trailingGraph (binds : List (Destination × Source)) : Graph where
  steps := [⟨"Relay", 0, echo⟩, ⟨"Relay", 1, join⟩, ⟨"Relay", 2, echo⟩]
  binds := .ofList (binds ++ [(.outlet 0, .stepOutlet ⟨1, 0⟩)])

/-- What the first builder builds. -/
def invoked : Action :=
  { shell with graph := some (trailingGraph [(.stepInlet ⟨0, 0⟩, .inlet 0),
    (.stepInlet ⟨1, 2⟩, .const (.json .null)), (.stepInlet ⟨1, 1⟩, .stepOutlet ⟨0, 0⟩),
    (.stepInlet ⟨2, 0⟩, .stepOutlet ⟨1, 0⟩)]) }

/-- What the second builder builds. -/
def bound : Action :=
  { shell with graph := some (trailingGraph [(.stepInlet ⟨0, 0⟩, .inlet 0),
    (.stepInlet ⟨1, 1⟩, .stepOutlet ⟨0, 0⟩), (.stepInlet ⟨1, 2⟩, .const (.json .null)),
    (.stepInlet ⟨2, 0⟩, .stepOutlet ⟨1, 0⟩)]) }

theorem builds_invoked : Builder.Builds invoking ∅ 0 "Relay" [⟨"a", .any⟩] [⟨"res", .any⟩]
    invokingCalls [.step ⟨0, 1, join⟩] invoked where
  result := rfl
  makes := .inspect (.call (c := .invoke _ _ _) (.call (c := .invoke _ _ _)
    (.of_assoc (.of_assoc (.call (c := .invoke _ _ _) .done)))))
  produced := ⟨.single (.step ⟨0, 1, join⟩), rfl, rfl⟩

theorem builds_bound : Builder.Builds binding ∅ 1 "Relay" [⟨"a", .any⟩] [⟨"res", .any⟩]
    bindingCalls [.step ⟨1, 1, join⟩] bound where
  result := rfl
  makes := .inspect (.call (c := .register _) (.call (c := .bind _ _) (.call (c := .bind _ _)
    (.call (c := .register _) (.call (c := .bind _ _) (.call (c := .bind _ _)
      (.call (c := .register _) (.call (c := .bind _ _) .done))))))))
  produced := ⟨.single (.step ⟨1, 1, join⟩), rfl, rfl⟩

theorem lastSource?_invoking (port : StepPort) :
    Builder.Call.lastSource? 0 invokingCalls port =
      Builder.Call.lastSource? 1 bindingCalls port := by
  have hinvoking : Builder.Call.allBinds 0 0 invokingCalls =
      [(.stepInlet ⟨0, 0⟩, .inlet 0), (.stepInlet ⟨1, 2⟩, .const (.json .null)),
        (.stepInlet ⟨1, 1⟩, .stepOutlet ⟨0, 0⟩), (.stepInlet ⟨2, 0⟩, .stepOutlet ⟨1, 0⟩)] := rfl
  have hbinding : Builder.Call.allBinds 1 0 bindingCalls =
      [(.stepInlet ⟨0, 0⟩, .const (.json .null)), (.stepInlet ⟨0, 0⟩, .inlet 0),
        (.stepInlet ⟨1, 1⟩, .stepOutlet ⟨0, 0⟩), (.stepInlet ⟨1, 2⟩, .const (.json .null)),
        (.stepInlet ⟨2, 0⟩, .stepOutlet ⟨1, 0⟩)] := rfl
  rw [Builder.Call.lastSource?, Builder.Call.lastSource?, hinvoking, hbinding]
  by_cases hport : port ∈ [⟨0, 0⟩, ⟨1, 1⟩, ⟨1, 2⟩, ⟨2, 0⟩]
  · simp only [List.mem_cons, List.not_mem_nil, or_false] at hport
    rcases hport with rfl | rfl | rfl | rfl <;> rfl
  · -- Other inlets are not bound.
    simp only [List.mem_cons, List.not_mem_nil, or_false, not_or] at hport
    simp [List.lookup_cons, beq_eq_decide, hport]

end Relay

/-- The two builders build the relay with its inlets listed in different orders; no evaluation tells
    which is which. -/
theorem calls_determine_build_relay :
    (Relay.invoked.graph.map (·.binds.keys)) ≠ (Relay.bound.graph.map (·.binds.keys)) ∧
      ∀ (ev : Evaluator) limit inputs,
        ev.evaluate limit Relay.bound inputs = ev.evaluate limit Relay.invoked inputs := by
  obtain ⟨-, -, hequal⟩ := calls_determine_build
  exact ⟨by decide, hequal _ _ _ _ _ _ _ _ _ _ _ _ _ _ _ Relay.builds_invoked Relay.builds_bound
    rfl Relay.lastSource?_invoking rfl⟩

end Dataflow
