import Dataflow.Proofs.Builder.Determined
import Dataflow.Proofs.Catalog.Consistent

/-!
# Why builds fail

An attempt to build an algorithm goes through phases: its code is looked up, the names of its
inlets and of its outlets are compared, the builder runs, its results are counted and resolved,
and the inlets of the steps are checked. Each phase has its own fault, which is said here without
regard to the others (`Builder.Attempt.Fault`), and several may have one at a time. The build
fails with the fault of the first phase that has one and succeeds if no phase has any
(`build_reports_first_fault`).
-/

namespace Dataflow

/-! ## Repeated names -/

/-- A name is the first one of a list that occurs earlier in it. -/
def IsFirstRepeat (names : List String) (name : String) : Prop :=
  ∃ before after, names = before ++ name :: after ∧ before.Nodup ∧ name ∈ before

theorem exists_of_firstRepeat? {taken names : List String} {name : String}
    (h : firstRepeat? taken names = some name) :
    ∃ before after, names = before ++ name :: after ∧ before.Nodup ∧
      (∀ n ∈ before, n ∉ taken) ∧ (name ∈ taken ∨ name ∈ before) := by
  induction names generalizing taken with
  | nil => cases h
  | cons first rest ih =>
    rw [firstRepeat?] at h
    split at h
    · next htaken =>
      obtain rfl := Option.some.inj h
      exact ⟨[], rest, rfl, .nil, by simp, .inl htaken⟩
    · next hfree =>
      obtain ⟨before, after, rfl, hnodup, hbefore, hname⟩ := ih h
      refine ⟨first :: before, after, rfl, List.nodup_cons.2 ⟨fun hmem => ?_, hnodup⟩, ?_, ?_⟩
      · exact hbefore first hmem List.mem_cons_self
      · exact List.forall_mem_cons.2 ⟨hfree, fun n hn hmem =>
          hbefore n hn (List.mem_cons_of_mem _ hmem)⟩
      · simp only [List.mem_cons] at hname ⊢
        tauto

theorem firstRepeat?_append {taken before rest : List String} (hnodup : before.Nodup)
    (hfree : ∀ n ∈ before, n ∉ taken) :
    firstRepeat? taken (before ++ rest) = firstRepeat? (before.reverse ++ taken) rest := by
  induction before generalizing taken with
  | nil => rfl
  | cons n before ih =>
    obtain ⟨hn, hnodup⟩ := List.nodup_cons.1 hnodup
    obtain ⟨hfirst, hfree⟩ := List.forall_mem_cons.1 hfree
    rw [List.cons_append, firstRepeat?, if_neg hfirst, ih hnodup, List.reverse_cons,
      List.append_assoc, List.singleton_append]
    intro m hm hmem
    rcases List.mem_cons.1 hmem with rfl | hmem
    · exact hn hm
    · exact hfree m hm hmem

theorem firstRepeat?_eq_some_iff {names : List String} {name : String} :
    firstRepeat? [] names = some name ↔ IsFirstRepeat names name := by
  constructor
  · intro h
    obtain ⟨before, after, hnames, hnodup, -, hname⟩ := exists_of_firstRepeat? h
    exact ⟨before, after, hnames, hnodup, hname.resolve_left List.not_mem_nil⟩
  · rintro ⟨before, after, rfl, hnodup, hname⟩
    -- The names before it are taken by then.
    rw [firstRepeat?_append hnodup fun _ _ => List.not_mem_nil, firstRepeat?, if_pos]
    simpa using hname

/-! ## Results that cannot be sources -/

/-- An output cannot be a source in a scope, which is an error. -/
inductive Output.Fault (scope : Identity) (code : String) : Output → Error → Prop
  /-- A port of another scope. -/
  | foreignPort {t : Terminal} (ht : t.scope ≠ scope) :
    Fault scope code (.port t) (.invalidBinding code "port belongs to another algorithm")
  /-- A step of another scope. -/
  | foreignStep {h : StepHandle} (hh : h.scope ≠ scope) :
    Fault scope code (.step h) (.invalidBinding code "port belongs to another algorithm")
  /-- An inlet of a step. -/
  | stepInlet (port : StepPort) :
    Fault scope code (.port ⟨scope, .stepInlet port⟩)
      (.invalidBinding code "a step inlet cannot be a source")
  /-- A step with several outlets. -/
  | several {h : StepHandle} (hh : h.scope = scope) (hsize : 1 < h.action.outlets.size) :
    Fault scope code (.step h)
      (.ambiguousStep h.ordinal h.action.code h.action.outlets.size)
  /-- A step with no outlet. -/
  | none {h : StepHandle} (hh : h.scope = scope) (hsize : h.action.outlets.size = 0) :
    Fault scope code (.step h)
      (.unknownPort s!"step {h.ordinal} (`{h.action.code}`)" .outward (.index 0))

/-- An output is a source or has a fault. -/
theorem Output.source?_or_fault (scope : Identity) (code : String) (output : Output) :
    (∃ source, output.source? scope = some source) ∨ ∃ e, output.Fault scope code e := by
  cases output with
  | const v => exact .inl ⟨_, rfl⟩
  | port t =>
    by_cases ht : t.scope = scope
    · rcases t with ⟨_, port⟩
      cases ht
      cases port with
      | inlet i => exact .inl ⟨.inlet i, if_pos rfl⟩
      | stepOutlet port => exact .inl ⟨.stepOutlet port, if_pos rfl⟩
      | stepInlet port => exact .inr ⟨_, .stepInlet port⟩
    · exact .inr ⟨_, .foreignPort ht⟩
  | step h =>
    by_cases hh : h.scope = scope
    · rcases Nat.lt_trichotomy h.action.outlets.size 1 with hlt | hone | hgt
      · exact .inr ⟨_, .none hh (Nat.lt_one_iff.1 hlt)⟩
      · exact .inl ⟨_, if_pos ⟨hh, hone⟩⟩
      · exact .inr ⟨_, .several hh hgt⟩
    · exact .inr ⟨_, .foreignStep hh⟩

namespace Scope

variable {s : Scope} {e : Error}

theorem checkIssued_of_eq {scope : Identity} (h : scope = s.identity) :
    s.checkIssued scope = .ok () := if_pos h

theorem checkIssued_of_ne {scope : Identity} (h : scope ≠ s.identity) :
    s.checkIssued scope = .error (s.invalidBinding "port belongs to another algorithm") := if_neg h

/-- A step without outlets does not have the first one. -/
theorem outlet_of_size_eq_zero {h : StepHandle} (hsize : h.action.outlets.size = 0) :
    h.outlet (.index 0) =
      .error (.unknownPort s!"step {h.ordinal} (`{h.action.code}`)" .outward (.index 0)) := by
  have hnone : (h.action.ports .outward).indexOf? (.index 0) = none :=
    if_neg (by rw [Action.ports, hsize]; exact Nat.lt_irrefl 0)
  rw [StepHandle.outlet, StepHandle.portIndex, Action.port, hnone]
  rfl

/-- An output that has a fault does not resolve. -/
theorem resolveSource_of_fault {output : Output}
    (h : output.Fault s.identity s.algorithm.code e) : s.resolveSource output = .error e := by
  cases h with
  | foreignPort ht =>
    rw [resolveSource, sourceOfTerminal, checkIssued_of_ne ht]
    rfl
  | foreignStep hh =>
    rw [resolveSource, checkIssued_of_ne hh]
    rfl
  | stepInlet port =>
    rw [resolveSource, sourceOfTerminal, checkIssued_of_eq rfl]
    rfl
  | several hh hsize =>
    rw [resolveSource, checkIssued_of_eq hh]
    simp only [if_pos hsize]
    rfl
  | none hh hsize =>
    rw [resolveSource, checkIssued_of_eq hh, outlet_of_size_eq_zero hsize]
    simp only [hsize]
    rfl

/-- An output that resolves is a source. -/
theorem exists_resolveSource_iff {output : Output} :
    (∃ source, s.resolveSource output = .ok source) ↔
      ∃ source, output.source? s.identity = some source := by
  simp only [← toOption_resolveSource, Except.toOption_eq_some_iff]

/-- An output resolves to nothing exactly if it has a fault. -/
theorem resolveSource_eq_error_iff {output : Output} :
    s.resolveSource output = .error e ↔ output.Fault s.identity s.algorithm.code e := by
  refine Except.eq_error_iff_of_fault ?_ fun _ => resolveSource_of_fault
  rw [exists_resolveSource_iff]
  exact Output.source?_or_fault s.identity s.algorithm.code output

/-! ## What becomes of the results -/

/-- Results are counted, then resolved, then bound to the outlets. -/
theorem finish_eq (produced : Produced) :
    s.finish produced =
      (if produced.outputs.length = s.algorithm.outlets.size then .ok ()
        else .error (.outletCountMismatch s.algorithm.code s.algorithm.outlets.size
          produced.outputs.length)) >>= fun _ => produced.outputs.mapM s.resolveSource >>=
            fun sources => .ok ⟨s.steps, bindOutlets s.binds 0 sources⟩ := by
  rw [finish]
  simp only [ne_eq, ite_not]
  split <;> rfl

theorem get?_stepInlet_bindOutlets (binds : OrderedMap Destination Source) (i : Nat)
    (sources : List Source) (port : StepPort) :
    (bindOutlets binds i sources).get? (.stepInlet port) = binds.get? (.stepInlet port) := by
  induction sources generalizing binds i with
  | nil => rfl
  | cons source rest ih =>
    rw [bindOutlets, ih, OrderedMap.get?_insert, if_neg]
    rintro ⟨⟩

/-- Binding the outlets leaves the inlets of the steps as they are. -/
theorem firstUnbound_bindOutlets {sources : List Source} {step : Step} {i : Nat} {p : Parameter} :
    Graph.FirstUnbound ⟨s.steps, bindOutlets s.binds 0 sources⟩ step i p ↔
      s.graph.FirstUnbound step i p := by
  have hunbound (step : Step) (i : Nat) (p : Parameter) :
      Graph.Unbound ⟨s.steps, bindOutlets s.binds 0 sources⟩ step i p ↔
        s.graph.Unbound step i p := by
    have hget := get?_stepInlet_bindOutlets s.binds 0 sources ⟨step.ordinal, i⟩
    exact ⟨fun h => ⟨h.step, h.inlet, h.needed, hget.symm.trans h.unbound⟩,
      fun h => ⟨h.step, h.inlet, h.needed, hget.trans h.unbound⟩⟩
  constructor
  · exact fun h => ⟨(hunbound step i p).1 h.toUnbound,
      fun t j q ht => h.first t j q ((hunbound t j q).2 ht)⟩
  · exact fun h => ⟨(hunbound step i p).2 h.toUnbound,
      fun t j q ht => h.first t j q ((hunbound t j q).1 ht)⟩

end Scope

/-! ## Attempts -/

namespace Builder

/-- An attempt to build an algorithm. -/
structure Attempt where
  /-- The catalog. -/
  catalog : Catalog
  /-- The identity of the scope. -/
  identity : Identity
  /-- The code. -/
  code : String
  /-- The parameters of the inlets. -/
  inlets : List Parameter
  /-- The parameters of the outlets. -/
  outlets : List Parameter
  /-- The builder. -/
  builder : Fallible Produced

namespace Attempt

variable (x : Attempt)

/-- What the build returns. -/
def result : Except Error Action :=
  (Catalog.build x.identity x.code x.inlets x.outlets x.builder x.catalog).1.result

/-- The parameters of one direction. -/
def parameters : Direction → List Parameter
  | .inward => x.inlets
  | .outward => x.outlets

/-- The builder, which runs in a fresh scope of an algorithm with the ports, ends with an answer
    and leaves a scope. -/
def Ends (answer : Except Error Produced) (left : Scope) : Prop :=
  ∃ shell events, Action.ofParameters x.code x.inlets x.outlets = .ok shell ∧
    (ExceptT.run x.builder).run (.start x.identity shell) = (answer, left, events)

/-- What a build goes through. -/
inductive Phase where
  /-- The code is looked up. -/
  | code
  /-- The names of the ports of a direction are compared. -/
  | ports (direction : Direction)
  /-- The builder runs. -/
  | builder
  /-- Its results are counted. -/
  | count
  /-- Its results are resolved. -/
  | results
  /-- The inlets of the steps are checked. -/
  | steps

/-- The phases in order. -/
def phases : List Phase :=
  [.code, .ports .inward, .ports .outward, .builder, .count, .results, .steps]

/-- What is wrong with an attempt in a phase, whatever else is. -/
inductive Fault : Phase → Error → Prop
  /-- The code is that of an action. -/
  | code (h : x.code ∈ x.catalog.actions.entries.keys) :
    Fault .code (.alreadyExists .action x.code)
  /-- A name is repeated. -/
  | ports {direction : Direction} {name : String}
    (h : IsFirstRepeat ((x.parameters direction).map Parameter.name) name) :
    Fault (.ports direction) (.duplicatePort x.code direction name)
  /-- The builder fails. -/
  | builder {e : Error} {left : Scope} (h : x.Ends (.error e) left) : Fault .builder e
  /-- There are more or fewer results than outlets. -/
  | count {produced : Produced} {left : Scope} (h : x.Ends (.ok produced) left)
    (hcount : produced.outputs.length ≠ x.outlets.length) :
    Fault .count (.outletCountMismatch x.code x.outlets.length produced.outputs.length)
  /-- A result cannot be a source, while those before it can. -/
  | results {produced : Produced} {left : Scope} {before after : List Output} {output : Output}
    {e : Error} (h : x.Ends (.ok produced) left)
    (houtputs : produced.outputs = before ++ output :: after)
    (hbefore : ∀ o ∈ before, ∃ source, o.source? x.identity = some source)
    (hfault : output.Fault x.identity x.code e) : Fault .results e
  /-- An inlet of a step that needs a source has none. -/
  | steps {produced : Produced} {left : Scope} {s : Step} {i : Nat} {p : Parameter}
    (h : x.Ends (.ok produced) left) (hfirst : left.graph.FirstUnbound s i p) :
    Fault .steps (.unboundInlet x.code s.ordinal s.action.code p.name)

/-- The fault of the first of some phases that has one. -/
def FirstFault : List Phase → Error → Prop
  | [], _ => False
  | phase :: rest, e => x.Fault phase e ∨ (∀ e', ¬x.Fault phase e') ∧ FirstFault rest e

variable {x} {phase : Phase} {rest : List Phase} {e : Error}

/-- A phase that fails for its fault, followed by phases that fail for the first of theirs. -/
theorem bind_eq_error_iff {α β : Type} {y : Except Error α} {f : α → Except Error β}
    (hphase : ∀ e, y = .error e ↔ x.Fault phase e)
    (hrest : ∀ a, y = .ok a → (f a = .error e ↔ x.FirstFault rest e)) :
    y >>= f = .error e ↔ x.FirstFault (phase :: rest) e := by
  rw [FirstFault, Except.bind_eq_error, ← hphase]
  simp only [← hphase]
  cases y with
  | error e' => simp
  | ok a => simp [hrest a rfl]

theorem exists_firstFault_iff {l : List Phase} :
    (∃ e, x.FirstFault l e) ↔ ∃ phase ∈ l, ∃ e, x.Fault phase e := by
  induction l with
  | nil => simp [FirstFault]
  | cons phase rest ih =>
    simp only [FirstFault, List.mem_cons, exists_eq_or_imp, ← ih, exists_or, exists_and_left]
    by_cases h : ∃ e, x.Fault phase e
    · exact iff_of_true (.inl h) (.inl h)
    · rw [or_iff_right h, or_iff_right h, and_iff_right (not_exists.1 h)]

theorem mem_phases (phase : Phase) : phase ∈ phases := by
  cases phase with
  | ports direction => cases direction <;> simp [phases]
  | _ => simp [phases]

/-! ### Phase by phase -/

theorem ensureVacant_eq_error_iff (hc : x.catalog.Consistent) :
    x.catalog.ensureVacant x.code = .error e ↔ x.Fault .code e := by
  by_cases hmem : x.code ∈ x.catalog.actions.entries.keys
  · have hvacant : x.catalog.ensureVacant x.code = .error (.alreadyExists .action x.code) := by
      rw [Catalog.ensureVacant, ActionPool.ensureVacant, ActionPool.contains,
        if_pos (OrderedMap.contains_iff.2 hmem)]
      rfl
    rw [hvacant]
    constructor
    · exact fun h => Except.error.inj h ▸ .code hmem
    · intro h
      cases h
      rfl
  · -- The codes of the algorithms are codes of actions.
    have halgorithm : x.code ∉ x.catalog.algorithms.entries.keys := by
      rw [hc.keys_algorithms]
      exact fun h => hmem (List.mem_of_mem_filter h)
    rw [Catalog.ensureVacant_of_isFree ⟨hmem, halgorithm⟩]
    constructor
    · intro h
      cases h
    · intro h
      cases h with
      | code h => exact absurd h hmem

theorem ofParameters_eq_error_iff (direction : Direction) :
    (Ports.ofParameters (x.parameters direction)).mapError (.duplicatePort x.code direction) =
      .error e ↔ x.Fault (.ports direction) e := by
  constructor
  · intro h
    rcases hports : Ports.ofParameters (x.parameters direction) with name | ports
    · rw [hports] at h
      obtain rfl := Except.error.inj h
      exact .ports (firstRepeat?_eq_some_iff.1 (Ports.ofParameters_error.1 hports))
    · rw [hports] at h
      cases h
  · intro h
    cases h with
    | ports h =>
      rw [Ports.ofParameters_error.2 (firstRepeat?_eq_some_iff.2 h)]
      rfl

/-- The names of the inlets are compared before those of the outlets. -/
theorem ofParameters_eq :
    Action.ofParameters x.code x.inlets x.outlets =
      (Ports.ofParameters (x.parameters .inward)).mapError (.duplicatePort x.code .inward) >>=
        fun inlets =>
      (Ports.ofParameters (x.parameters .outward)).mapError (.duplicatePort x.code .outward) >>=
        fun outlets => .ok ⟨x.code, inlets, outlets, none⟩ := by
  rw [Action.ofParameters, parameters, parameters]
  rcases Ports.ofParameters x.inlets with name | inlets
  · rfl
  · rcases Ports.ofParameters x.outlets with name | outlets
    · rfl
    · rfl

/-- What the builder gives is always registered. -/
theorem result_eq :
    x.result = x.catalog.shell x.code x.inlets x.outlets >>= fun shell =>
      (Builder.graph x.builder x.identity shell).result >>= fun g =>
        .ok { shell with graph := some g } := by
  have hresult : x.result =
      ((Catalog.build x.identity x.code x.inlets x.outlets x.builder).outcome x.catalog).1 := rfl
  rw [hresult]
  cases hshell : x.catalog.shell x.code x.inlets x.outlets with
  | error e =>
    rw [Catalog.build, Registration.outcome_check_bind_error hshell]
    rfl
  | ok shell =>
    show _ = (Builder.graph x.builder x.identity shell).result >>= _
    cases hgraph : (Builder.graph x.builder x.identity shell).result with
    | error e =>
      rw [Catalog.build, Registration.outcome_check_bind_ok hshell,
        Registration.outcome_ofRun_bind_error hgraph]
      rfl
    | ok g =>
      rw [(Catalog.outcome_build_of_graph hshell hgraph).2.2]
      rfl

variable {shell : Action} {answer : Except Error Produced} {left : Scope} {events : List Event}
  {produced : Produced}

/-- The builder leaves a scope of the algorithm, with steps that know their places. -/
theorem scope_of_run
    (hrun : (ExceptT.run x.builder).run (.start x.identity shell) = (answer, left, events)) :
    left.identity = x.identity ∧ left.algorithm = shell ∧
      ∀ k (s : Step), left.steps[k]? = some s → s.ordinal = k := by
  obtain ⟨calls, hcalls⟩ := exists_makes (ExceptT.run x.builder) (.start x.identity shell)
  have hscope := hcalls.scope_run
  rw [hrun] at hscope
  obtain rfl : left = _ := hscope
  refine ⟨rfl, rfl, fun k s hs => ?_⟩
  have hstep : ((calls.flatMap Call.placed).mapIdx fun i a =>
      (⟨shell.code, 0 + i, a⟩ : Step))[k]? = some s := hs
  rw [List.getElem?_mapIdx, Option.map_eq_some_iff] at hstep
  obtain ⟨a, -, rfl⟩ := hstep
  exact Nat.zero_add k

section

variable (hshell : Action.ofParameters x.code x.inlets x.outlets = .ok shell)

include hshell

/-- The builder ends in one way. -/
theorem eq_of_ends {answer' : Except Error Produced} {left' : Scope}
    (hrun : (ExceptT.run x.builder).run (.start x.identity shell) = (answer, left, events))
    (h : x.Ends answer' left') : answer' = answer ∧ left' = left := by
  obtain ⟨shell', events', hshell', hrun'⟩ := h
  obtain rfl := Except.ok.inj (hshell.symm.trans hshell')
  have heq := hrun'.symm.trans hrun
  exact ⟨congrArg Prod.fst heq, congrArg (fun r => r.2.1) heq⟩

theorem answer_eq_error_iff
    (hrun : (ExceptT.run x.builder).run (.start x.identity shell) = (answer, left, events)) :
    answer = .error e ↔ x.Fault .builder e := by
  constructor
  · rintro rfl
    exact .builder ⟨shell, events, hshell, hrun⟩
  · intro h
    cases h with
    | builder h => exact (eq_of_ends hshell hrun h).1.symm

variable (hrun : (ExceptT.run x.builder).run (.start x.identity shell) =
  (.ok produced, left, events))

include hrun

theorem count_eq_error_iff :
    (if produced.outputs.length = left.algorithm.outlets.size then .ok ()
      else .error (.outletCountMismatch left.algorithm.code left.algorithm.outlets.size
        produced.outputs.length)) = (.error e : Except Error Unit) ↔ x.Fault .count e := by
  obtain ⟨-, rfl, -⟩ := scope_of_run hrun
  obtain ⟨hcode, -⟩ := Action.of_ofParameters hshell
  obtain ⟨-, houtlets⟩ := Action.parameters_of_ofParameters hshell
  rw [hcode, Ports.size, houtlets]
  constructor
  · intro h
    split at h
    · cases h
    · next hcount => exact Except.error.inj h ▸ .count ⟨_, events, hshell, hrun⟩ hcount
  · intro h
    cases h with
    | count h hcount =>
      obtain ⟨hproduced, -⟩ := eq_of_ends hshell hrun h
      cases hproduced
      exact if_neg hcount

theorem mapM_resolveSource_eq_error_iff :
    produced.outputs.mapM left.resolveSource = .error e ↔ x.Fault .results e := by
  obtain ⟨hidentity, rfl, -⟩ := scope_of_run hrun
  obtain ⟨hcode, -⟩ := Action.of_ofParameters hshell
  rw [Except.mapM_eq_error_iff]
  simp only [Scope.exists_resolveSource_iff, Scope.resolveSource_eq_error_iff, hidentity, hcode]
  constructor
  · rintro ⟨before, output, after, houtputs, hbefore, hfault⟩
    exact .results ⟨_, events, hshell, hrun⟩ houtputs hbefore hfault
  · intro h
    cases h with
    | results h houtputs hbefore hfault =>
      obtain ⟨hproduced, -⟩ := eq_of_ends hshell hrun h
      cases hproduced
      exact ⟨_, _, _, houtputs, hbefore, hfault⟩

theorem validate_eq_error_iff (sources : List Source) :
    Graph.validate ⟨left.steps, Scope.bindOutlets left.binds 0 sources⟩ shell.code = .error e ↔
      x.Fault .steps e := by
  obtain ⟨-, -, hnumbered⟩ := scope_of_run hrun
  obtain ⟨hcode, -⟩ := Action.of_ofParameters hshell
  rw [Graph.validate_eq_error_iff hnumbered, hcode]
  simp only [Scope.firstUnbound_bindOutlets]
  constructor
  · rintro ⟨s, i, p, hfirst, rfl⟩
    exact .steps ⟨shell, events, hshell, hrun⟩ hfirst
  · intro h
    cases h with
    | steps h hfirst =>
      obtain ⟨-, rfl⟩ := eq_of_ends hshell hrun h
      exact ⟨_, _, _, hfirst, rfl⟩

omit hrun in
/-- The builder runs, then its results are counted and resolved and the steps are checked. -/
theorem graph_eq_error_iff :
    (Builder.graph x.builder x.identity shell).result = .error e ↔
      x.FirstFault [.builder, .count, .results, .steps] e := by
  rcases hrun : (ExceptT.run x.builder).run (.start x.identity shell) with ⟨answer, left, events⟩
  rw [Builder.graph, hrun]
  refine bind_eq_error_iff (fun _ => answer_eq_error_iff hshell hrun) fun produced hanswer => ?_
  obtain rfl : answer = .ok produced := hanswer
  rw [Scope.finish_eq]
  simp only [bind_assoc]
  refine bind_eq_error_iff (fun _ => count_eq_error_iff hshell hrun) fun _ _ => ?_
  refine bind_eq_error_iff (fun _ => mapM_resolveSource_eq_error_iff hshell hrun)
    fun sources _ => ?_
  show (Graph.validate _ shell.code >>= _) = _ ↔ _
  refine bind_eq_error_iff (fun _ => validate_eq_error_iff hshell hrun sources)
    fun _ _ => iff_of_false (fun h => ?_) id
  cases h

end

/-- A build fails with the fault of the first phase that has one. -/
theorem result_eq_error_iff (hc : x.catalog.Consistent) :
    x.result = .error e ↔ x.FirstFault phases e := by
  rw [result_eq, Catalog.shell, bind_assoc]
  refine bind_eq_error_iff (fun _ => ensureVacant_eq_error_iff hc) fun _ _ => ?_
  rw [ofParameters_eq]
  simp only [bind_assoc]
  refine bind_eq_error_iff (fun _ => ofParameters_eq_error_iff .inward) fun inlets hinlets => ?_
  refine bind_eq_error_iff (fun _ => ofParameters_eq_error_iff .outward) fun outlets houtlets => ?_
  -- From here on there is an algorithm for the builder to run in, and only its graph can fail.
  have hshell : Action.ofParameters x.code x.inlets x.outlets =
      .ok ⟨x.code, inlets, outlets, none⟩ := by
    rw [ofParameters_eq, hinlets]
    show (Ports.ofParameters (x.parameters .outward)).mapError _ >>= _ = _
    rw [houtlets]
    rfl
  rw [← graph_eq_error_iff hshell]
  show ((Builder.graph x.builder x.identity _).result >>= _) = _ ↔ _
  rw [Except.bind_eq_error]
  refine or_iff_left ?_
  rintro ⟨g, -, h⟩
  cases h

/-- A build succeeds if no phase has a fault. -/
theorem exists_result_iff (hc : x.catalog.Consistent) :
    (∃ a, x.result = .ok a) ↔ ∀ phase e, ¬x.Fault phase e := by
  have herror : (∃ e, x.result = .error e) ↔ ∃ phase e, x.Fault phase e := by
    simp only [result_eq_error_iff hc, exists_firstFault_iff, mem_phases, true_and]
  rw [← not_exists.trans (forall_congr' fun _ => not_exists), ← herror]
  cases x.result <;> simp

/-- A fault of the code or of the names of the ports keeps the builder from running. -/
theorem build_of_fault (hc : x.catalog.Consistent) (h : x.Fault phase e)
    (hphase : phase ∈ [.code, .ports .inward, .ports .outward]) :
    ∀ builder, Catalog.build x.identity x.code x.inlets x.outlets builder x.catalog =
      (⟨[], x.result⟩, x.catalog) := by
  intro builder
  cases hshell : x.catalog.shell x.code x.inlets x.outlets with
  | error e' =>
    rw [result_eq, Catalog.build, hshell]
    show Registration.bind (.check fun c => c.shell x.code x.inlets x.outlets) _ x.catalog = _
    rw [Registration.bind, Registration.check, hshell]
    rfl
  | ok shell =>
    -- There is no such fault.
    obtain ⟨_, hvacant, hparameters⟩ := Except.bind_eq_ok.1 hshell
    rw [ofParameters_eq, Except.bind_eq_ok] at hparameters
    obtain ⟨inlets, hinlets, hparameters⟩ := hparameters
    obtain ⟨outlets, houtlets, -⟩ := Except.bind_eq_ok.1 hparameters
    simp only [List.mem_cons, List.not_mem_nil, or_false] at hphase
    rcases hphase with rfl | rfl | rfl
    · rw [(ensureVacant_eq_error_iff hc).2 h] at hvacant
      cases hvacant
    · rw [(ofParameters_eq_error_iff .inward).2 h] at hinlets
      cases hinlets
    · rw [(ofParameters_eq_error_iff .outward).2 h] at houtlets
      cases houtlets

/-- A build that succeeds puts the results at the outlets. -/
theorem exists_ends_of_result {a : Action} (h : x.result = .ok a) :
    ∃ produced left g, x.Ends (.ok produced) left ∧ a.graph = some g ∧
      ∀ i output, produced.outputs[i]? = some output →
        ∃ source, output.source? x.identity = some source ∧
          g.sourceOf? (.outlet i) = some source := by
  obtain ⟨hshell, -⟩ := shell_of_build h
  obtain ⟨calls, results, hbuilds⟩ := exists_builds h
  obtain ⟨g, sources, hg, hsources, -, -, houtlets, -⟩ := hbuilds.exists_graph
  obtain ⟨produced, rfl, hproduced⟩ := hbuilds.produced
  -- The graph is that of the run whose answer and scope are named here.
  rcases hrun : (ExceptT.run x.builder).run (.start x.identity { a with graph := none })
    with ⟨answer, left, events⟩
  rw [hrun] at hproduced
  obtain rfl : answer = .ok produced := hproduced
  refine ⟨produced, left, g, ⟨_, events, hshell, hrun⟩, hg, fun i output houtput => ?_⟩
  have hsource := congrArg (·[i]?) hsources
  simp only [List.getElem?_map, houtput, Option.map_some] at hsource
  obtain ⟨source, hi, hsome⟩ := Option.map_eq_some_iff.1 hsource.symm
  exact ⟨source, hsome.symm, (houtlets i).trans hi⟩

end Attempt

end Builder

/-- After commands on an empty catalog, some of which may have failed, a build fails with the
    fault of the first phase that has one: the code is that of an action; an inlet repeats the
    name of another one; an outlet does; the builder fails; there are more or fewer results than
    outlets; a result cannot be a source; or an inlet of a step has no source. It succeeds if no
    phase has a fault. In the first three cases the builder does not run: the build is the same
    with any other builder. If the build succeeds every result is at its outlet, and a step, which
    then has one outlet, stands there for this. -/
theorem build_reports_first_fault (commands : List Catalog.Command) (identity : Identity)
    (code : String) (inlets outlets : List Parameter) (builder : Builder.Fallible Produced) :
    let catalog := (∅ : Catalog).after commands
    let x : Builder.Attempt := ⟨catalog, identity, code, inlets, outlets, builder⟩
    (∀ e, x.result = .error e ↔ x.FirstFault Builder.Attempt.phases e) ∧
    ((∃ a, x.result = .ok a) ↔ ∀ phase e, ¬x.Fault phase e) ∧
    (∀ phase ∈ [.code, .ports .inward, .ports .outward], ∀ e, x.Fault phase e →
      ∀ builder', Catalog.build identity code inlets outlets builder' catalog =
        (⟨[], x.result⟩, catalog)) ∧
    ∀ a, x.result = .ok a → ∃ produced left g, x.Ends (.ok produced) left ∧ a.graph = some g ∧
      ∀ i output, produced.outputs[i]? = some output →
        g.sourceOf? (.outlet i) = output.source? identity ∧
        ∀ h, output = .step h → h.action.outlets.size = 1 ∧
          g.sourceOf? (.outlet i) = some (.stepOutlet ⟨h.ordinal, 0⟩) := by
  intro catalog x
  have hc : x.catalog.Consistent := Catalog.consistent_after commands
  refine ⟨fun e => Builder.Attempt.result_eq_error_iff hc, Builder.Attempt.exists_result_iff hc,
    fun phase hphase e h => Builder.Attempt.build_of_fault hc h hphase, fun a ha => ?_⟩
  obtain ⟨produced, left, g, hends, hg, hresults⟩ := Builder.Attempt.exists_ends_of_result ha
  refine ⟨produced, left, g, hends, hg, fun i output houtput => ?_⟩
  obtain ⟨source, hsource, hi⟩ := hresults i output houtput
  refine ⟨hi.trans hsource.symm, ?_⟩
  rintro h rfl
  rw [Output.source?] at hsource
  split at hsource
  · next hone => exact ⟨hone.2, hi.trans hsource.symm⟩
  · cases hsource

example : (Catalog.build 0 "Echo" [⟨"a", .any⟩, ⟨"a", .any⟩] [] (pure .nothing)
    ((∅ : Catalog).after [.declare "Echo" [] []])).1.result =
      .error (.alreadyExists .action "Echo") := rfl

end Dataflow
