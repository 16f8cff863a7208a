import Dataflow.Proofs.Builder.Determined

/-!
# Builders that wrap an action

A builder *wraps* an action in an algorithm with the same ports if it invokes the action once, on
all inlets of the algorithm in order, and ends with all outlets of that step, in order
(`Builder.Wraps`). What it builds has a graph with a single step, which reads the inlets of the
algorithm and feeds its outlets (`Graph.Wraps`, `Builder.Wraps.exists_graph`).

Every action can be wrapped under a code that is free (`Builder.wraps_wrapper`), be it an algorithm
or not and whatever its ports are.
-/

namespace Dataflow

/-! ## Graphs of a single step -/

/-- The graph of an algorithm that evaluates an action on its inlets and results in the outlets of
    the action. -/
structure Graph.Wraps (g : Graph) (w a : Action) : Prop where
  /-- The action is the only step. -/
  steps : g.steps = [⟨w.code, 0, a⟩]
  /-- Its inlets read those of the algorithm. -/
  inlets : ∀ port source, g.sourceOf? (.stepInlet port) = some source ↔
    ∃ i < a.inlets.size, port = ⟨0, i⟩ ∧ source = .inlet i
  /-- The outlets of the algorithm read those of the step. -/
  outlets : ∀ i source, g.sourceOf? (.outlet i) = some source ↔
    i < a.outlets.size ∧ source = .stepOutlet ⟨0, i⟩

namespace Graph.Wraps

variable {g : Graph} {w a : Action} {k i : Nat} {s : Step} (h : g.Wraps w a)

include h

theorem eq_of_getElem? (hs : g.steps[k]? = some s) : k = 0 ∧ s = ⟨w.code, 0, a⟩ := by
  rw [h.steps, List.getElem?_eq_some_iff] at hs
  obtain ⟨hk, rfl⟩ := hs
  obtain rfl : k = 0 := by simpa using hk
  exact ⟨rfl, rfl⟩

theorem getElem?_zero : g.steps[0]? = some ⟨w.code, 0, a⟩ := by
  rw [h.steps]
  rfl

theorem sourceOf?_stepInlet (hi : i < a.inlets.size) :
    g.sourceOf? (.stepInlet ⟨0, i⟩) = some (.inlet i) :=
  (h.inlets _ _).2 ⟨i, hi, rfl, rfl⟩

theorem sourceOf?_outlet (hi : i < a.outlets.size) :
    g.sourceOf? (.outlet i) = some (.stepOutlet ⟨0, i⟩) :=
  (h.outlets _ _).2 ⟨hi, rfl⟩

theorem inOrder : g.InOrder := by
  rintro k s - i port ⟨-, hsource, -⟩
  obtain ⟨_, -, -, hinlet⟩ := (h.inlets _ _).1 hsource
  cases hinlet

theorem wellFormed (hinlets : w.inlets = a.inlets) (houtlets : w.outlets = a.outlets) :
    g.WellFormed w where
  numbered k s hs := by
    obtain ⟨rfl, rfl⟩ := h.eq_of_getElem? hs
    exact ⟨rfl, rfl⟩
  sources d source hd := by
    replace hd : g.sourceOf? d = some source := OrderedMap.get?_eq_some_iff.2 hd
    cases d with
    | stepInlet port =>
      obtain ⟨i, hi, -, rfl⟩ := (h.inlets _ _).1 hd
      show i < w.inlets.size
      rwa [hinlets]
    | outlet i =>
      obtain ⟨hi, rfl⟩ := (h.outlets _ _).1 hd
      exact ⟨_, h.getElem?_zero, hi⟩
  destinations d source hd := by
    replace hd : g.sourceOf? d = some source := OrderedMap.get?_eq_some_iff.2 hd
    cases d with
    | stepInlet port =>
      obtain ⟨i, hi, rfl, -⟩ := (h.inlets _ _).1 hd
      exact ⟨_, h.getElem?_zero, hi⟩
    | outlet i =>
      obtain ⟨hi, -⟩ := (h.outlets _ _).1 hd
      show i < w.outlets.size
      rwa [houtlets]
  outlets i hi := ⟨_, h.sourceOf?_outlet (houtlets ▸ hi)⟩
  inlets k s hs i p hp _ := by
    obtain ⟨rfl, rfl⟩ := h.eq_of_getElem? hs
    exact ⟨_, h.sourceOf?_stepInlet (List.getElem?_eq_some_iff.1 hp).1⟩

/-- All inlets of the step are bound. -/
theorem validate (code : String) : g.validate code = .ok () := by
  have hbound : g.firstUnbound? 0 0 a.inlets.parameters = none := by
    refine firstUnbound?_eq_none fun i hi => ?_
    rw [Nat.zero_add, OrderedMap.contains_iff, ← OrderedMap.isSome_get?_iff]
    exact Option.isSome_iff_exists.2 ⟨_, h.sourceOf?_stepInlet hi⟩
  rw [Graph.validate, h.steps, checkSteps]
  dsimp only
  rw [hbound]
  rfl

end Graph.Wraps

/-! ## Builders -/

namespace Builder

/-- All inlets of an algorithm with so many inlets, in order. -/
def allInlets (identity : Identity) (n : Nat) : List Output :=
  (List.range n).map fun i => .port ⟨identity, .inlet i⟩

/-- A builder wraps an action in an algorithm with the ports of the action: it invokes the action
    once, on all inlets of the algorithm in order, and ends with all outlets of that step, in
    order. -/
structure Wraps (builder : Fallible Produced) (c : Catalog) (identity : Identity) (code : String)
    (a : Action) (results : List Output) (w : Action) : Prop where
  /-- The invocation is the only call. -/
  builds : Builds builder c identity code a.inlets.parameters a.outlets.parameters
    [.invoke a (allInlets identity a.inlets.size) []] results w
  /-- The results are the outlets of its step. -/
  results : results.map (·.source? identity) =
    (List.range a.outlets.size).map fun i => some (.stepOutlet ⟨0, i⟩)

variable {builder : Fallible Produced} {c : Catalog} {identity : Identity} {code : String}
  {a w : Action} {results : List Output} {k : Nat}

theorem map_argument?_allInlets :
    (Call.arguments (allInlets identity a.inlets.size) []).map
        (fun x => Call.argument? identity k a x.1 x.2) =
      ((List.range a.inlets.size).map fun i => (Destination.stepInlet ⟨k, i⟩, Source.inlet i)).map
        some := by
  refine List.ext_getElem (by simp [Call.arguments, allInlets]) fun i hi _ => ?_
  have hlt : i < a.inlets.size := by simpa [Call.arguments, allInlets] using hi
  simp [Call.arguments, allInlets, Call.argument?, Ports.indexOf?, Output.source?,
    Terminal.source?, hlt]

/-- The invocation binds every inlet of its step to that of the algorithm. -/
theorem allBinds_invoke_allInlets :
    Call.allBinds identity 0 [.invoke a (allInlets identity a.inlets.size) []] =
      (List.range a.inlets.size).map fun i => (.stepInlet ⟨0, i⟩, .inlet i) := by
  rw [Call.allBinds, Call.allBinds, List.append_nil]
  exact Call.argumentBinds_of_map map_argument?_allInlets

theorem lastSource?_invoke_allInlets {port : StepPort} {source : Source} :
    Call.lastSource? identity [.invoke a (allInlets identity a.inlets.size) []] port =
        some source ↔ ∃ i < a.inlets.size, port = ⟨0, i⟩ ∧ source = .inlet i := by
  have hnodup : (((List.range a.inlets.size).map fun i =>
      (Destination.stepInlet ⟨0, i⟩, Source.inlet i)).map Prod.fst).Nodup := by
    rw [List.map_map]
    refine List.nodup_range.map fun i j hij => ?_
    cases hij
    rfl
  rw [Call.lastSource?, allBinds_invoke_allInlets, ← OrderedMap.get?_ofList,
    OrderedMap.get?_eq_some_iff, OrderedMap.entries_ofList hnodup, List.mem_map]
  constructor
  · rintro ⟨i, hi, heq⟩
    cases heq
    exact ⟨i, List.mem_range.1 hi, rfl, rfl⟩
  · rintro ⟨i, hi, rfl, rfl⟩
    exact ⟨i, List.mem_range.2 hi, rfl⟩

/-- A graph with the step of the invocation, what that binds and the outlets of the step wraps the
    action. -/
theorem wraps_of_sourceOf? {g : Graph} (hsteps : g.steps = [⟨w.code, 0, a⟩])
    (hinlets : ∀ port, g.sourceOf? (.stepInlet port) =
      Call.lastSource? identity [.invoke a (allInlets identity a.inlets.size) []] port)
    (houtlets : ∀ i, g.sourceOf? (.outlet i) =
      ((List.range a.outlets.size).map fun i => Source.stepOutlet ⟨0, i⟩)[i]?) : g.Wraps w a where
  steps := hsteps
  inlets port source := by
    rw [hinlets]
    exact lastSource?_invoke_allInlets
  outlets i source := by
    rw [houtlets, List.getElem?_map, Option.map_eq_some_iff]
    constructor
    · rintro ⟨j, hj, rfl⟩
      obtain ⟨hlt, rfl⟩ := List.getElem?_eq_some_iff.1 hj
      rw [List.getElem_range]
      exact ⟨by simpa using hlt, rfl⟩
    · rintro ⟨hi, rfl⟩
      exact ⟨i, List.getElem?_range hi, rfl⟩

/-- What a builder that wraps an action builds has the ports of the action, and a graph that wraps
    it. -/
theorem Wraps.exists_graph (h : Wraps builder c identity code a results w) :
    w.inlets = a.inlets ∧ w.outlets = a.outlets ∧ ∃ g, w.graph = some g ∧ g.Wraps w a := by
  obtain ⟨rfl, hinlets, houtlets⟩ := h.builds.parameters
  obtain ⟨g, sources, hg, hsources, hsteps, hstepInlet, houtlet, -⟩ := h.builds.exists_graph
  obtain rfl : sources = (List.range a.outlets.size).map fun i => .stepOutlet ⟨0, i⟩ := by
    refine List.map_injective_iff.2 (Option.some_injective _) ?_
    rw [← hsources, h.results, List.map_map]
    rfl
  exact ⟨Ports.ext hinlets, Ports.ext houtlets, g, hg, wraps_of_sourceOf? hsteps hstepInlet houtlet⟩

/-! ## A builder for every action -/

/-- The builder that wraps an action. -/
def wrapper (a : Action) : Fallible Produced := do
  let inlets ← Builder.inlets
  let step ← Builder.invoke a (inlets.map .port) []
  let outlets ← ExceptT.mk (done ((List.range a.outlets.size).mapM fun i => step.outlet (.index i)))
  return .sequence (outlets.map .port)

/-- The outlets of the first step, in order. -/
def firstOutlets (identity : Identity) (n : Nat) : List Terminal :=
  (List.range n).map fun i => ⟨identity, .stepOutlet ⟨0, i⟩⟩

/-- The algorithm without its graph. -/
def wrapperShell (code : String) (a : Action) : Action := ⟨code, a.inlets, a.outlets, none⟩

theorem map_port_inlets : (Scope.start identity (wrapperShell code a)).inlets.map .port =
    allInlets identity a.inlets.size := by
  rw [Scope.inlets, List.map_map]
  rfl

/-- The invocation of the builder answers with the first step. -/
theorem answer_invoke_wrapper :
    ((ExceptT.run (invoke a (allInlets identity a.inlets.size) [])).run
      (.start identity (wrapperShell code a))).1 = .ok ⟨identity, 0, a⟩ := by
  refine answer_run_invoke fun x hx => ?_
  have hbound : Call.argument? identity 0 a x.1 x.2 ∈
      (Call.arguments (allInlets identity a.inlets.size) []).map
        fun x => Call.argument? identity 0 a x.1 x.2 := List.mem_map_of_mem hx
  rw [map_argument?_allInlets] at hbound
  obtain ⟨bound, -, hbound⟩ := List.mem_map.1 hbound
  exact Option.isSome_iff_exists.2 ⟨bound, hbound.symm⟩

theorem mapM_outlet : (List.range a.outlets.size).mapM
    (fun i => StepHandle.outlet ⟨identity, 0, a⟩ (.index i)) =
      .ok (firstOutlets identity a.outlets.size) := by
  refine Except.mapM_eq_ok fun i hi => Except.toOption_eq_some_iff.1 ?_
  rw [StepHandle.toOption_outlet, Ports.indexOf?, if_pos (List.mem_range.1 hi)]
  rfl

/-- The builder goes on from its first step with the outlets of that step. -/
theorem exists_run_wrapper (identity : Identity) (a : Action) :
    ∃ next : Except Error StepHandle → Builder (Except Error Produced),
      ExceptT.run (wrapper a) =
        inspect (fun s => ExceptT.run (invoke a (s.inlets.map .port) []) >>= next) ∧
      next (.ok ⟨identity, 0, a⟩) =
        done (.ok (.sequence ((firstOutlets identity a.outlets.size).map .port))) := by
  refine ⟨_, rfl, ?_⟩
  show ExceptT.run (ExceptT.mk (done _) >>= _) = _
  rw [run_mk_done_bind, mapM_outlet]
  rfl

theorem makes_wrapper : (ExceptT.run (wrapper a)).Makes (.start identity (wrapperShell code a))
    [.invoke a (allInlets identity a.inlets.size) []] := by
  obtain ⟨next, hrun, hnext⟩ := exists_run_wrapper identity a
  rw [hrun]
  refine .inspect ?_
  rw [map_port_inlets]
  refine .call (c := .invoke _ _ _) ?_
  show Makes (next ((ExceptT.run (invoke a _ [])).run _).1) _ _
  rw [answer_invoke_wrapper, hnext]
  exact .done

theorem answer_run_wrapper :
    ((ExceptT.run (wrapper a)).run (.start identity (wrapperShell code a))).1 =
      .ok (.sequence ((firstOutlets identity a.outlets.size).map .port)) := by
  obtain ⟨next, hrun, hnext⟩ := exists_run_wrapper identity a
  rw [hrun, run, map_port_inlets, run_bind]
  dsimp only
  rw [answer_invoke_wrapper, hnext]
  rfl

/-- The scope that the builder leaves. -/
def wrapperScope (identity : Identity) (code : String) (a : Action) : Scope where
  identity := identity
  algorithm := wrapperShell code a
  steps := [⟨code, 0, a⟩]
  binds := .ofList (Call.allBinds identity 0 [.invoke a (allInlets identity a.inlets.size) []])

/-- The graph that the builder gives. -/
def wrapperGraph (identity : Identity) (code : String) (a : Action) : Graph where
  steps := (wrapperScope identity code a).steps
  binds := Scope.bindOutlets (wrapperScope identity code a).binds 0
    ((List.range a.outlets.size).map fun i => .stepOutlet ⟨0, i⟩)

theorem scope_run_wrapper :
    ((ExceptT.run (wrapper a)).run (.start identity (wrapperShell code a))).2.1 =
      wrapperScope identity code a :=
  makes_wrapper.scope_run

theorem wraps_wrapperGraph :
    (wrapperGraph identity code a).Wraps (wrapperShell code a) a := by
  obtain ⟨hinlets, houtlets, -⟩ :=
    sourceOf?_of_entries (g := wrapperGraph identity code a) entries_bindOutlets
  exact wraps_of_sourceOf? rfl hinlets houtlets

/-- The outlets of the first step are accepted as results. -/
theorem finish_wrapperScope : (wrapperScope identity code a).finish
    (.sequence ((firstOutlets identity a.outlets.size).map .port)) =
      .ok (wrapperGraph identity code a) := by
  have hsources : ((firstOutlets identity a.outlets.size).map Output.port).mapM
      (wrapperScope identity code a).resolveSource =
        .ok ((List.range a.outlets.size).map fun i => .stepOutlet ⟨0, i⟩) := by
    rw [firstOutlets, List.map_map, List.mapM_map]
    refine Except.mapM_eq_ok fun i _ => Except.toOption_eq_some_iff.1 ?_
    rw [Function.comp_apply, Function.comp_apply, Scope.toOption_resolveSource]
    exact if_pos rfl
  have hlength : ¬((firstOutlets identity a.outlets.size).map Output.port).length ≠
      (wrapperScope identity code a).algorithm.outlets.size := by
    simp [firstOutlets, wrapperScope, wrapperShell]
  rw [Scope.finish, Produced.outputs]
  dsimp only
  rw [if_neg hlength, hsources]
  rfl

theorem result_graph_wrapper :
    (Builder.graph (wrapper a) identity (wrapperShell code a)).result =
      .ok (wrapperGraph identity code a) := by
  simp only [Builder.graph, answer_run_wrapper, scope_run_wrapper]
  show ((wrapperScope identity code a).finish _ >>= fun g => _) = _
  rw [finish_wrapperScope]
  show ((wrapperGraph identity code a).validate code >>= fun _ => _) = _
  rw [wraps_wrapperGraph.validate]
  rfl

/-- The algorithm that wraps an action. -/
def wrapped (identity : Identity) (code : String) (a : Action) : Action :=
  { wrapperShell code a with graph := some (wrapperGraph identity code a) }

/-- Every action is wrapped, under a code that is free, by the builder for it. -/
theorem wraps_wrapper (hfree : c.IsFree code) (identity : Identity) (a : Action) :
    Wraps (wrapper a) c identity code a ((firstOutlets identity a.outlets.size).map .port)
      (wrapped identity code a) := by
  have hshell : c.shell code a.inlets.parameters a.outlets.parameters =
      .ok (wrapperShell code a) := by
    rw [Catalog.shell, Catalog.ensureVacant_of_isFree hfree, Action.ofParameters_parameters]
    rfl
  obtain ⟨-, -, hbuild⟩ := Catalog.outcome_build_of_graph hshell result_graph_wrapper
  refine ⟨⟨congrArg Prod.fst hbuild, makes_wrapper, ⟨_, rfl, answer_run_wrapper⟩⟩, ?_⟩
  rw [firstOutlets, List.map_map, List.map_map]
  refine List.map_congr_left fun i _ => ?_
  exact if_pos rfl

end Builder

end Dataflow
