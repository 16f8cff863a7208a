import Dataflow.Builder
import Dataflow.Proofs.Action
import Dataflow.Proofs.Catalog.Pool
import Dataflow.Proofs.Run

/-!
# Commands

What may happen to a catalog, as data: a *command* is a call that registers something, with
its arguments. A command that succeeds gives the *entry* that it registered.

A command either fails and leaves the catalog as it is, or it puts one entry at the end of
the pools that the entry belongs to (`Command.outcome_appends`). This is not plain from the
way commands work: a build runs whatever its builder does and then fills one pool after the
other, and a strategy gets a place in its pool before it is known whether it may have it.

* `Command.outcome_cases`: all that a command can do, with what it has checked.
* `Catalog.after_induction`: what entering an admitted entry preserves, every sequence of
  commands preserves.
* `Catalog.entries_strategies_after`: after commands the strategies of an action are those
  before and those registered since, in the order of their registration.
-/

namespace Dataflow

/-! ## Outcomes of registrations -/

namespace Registration

variable {α β : Type} {x : Registration α} {f : α → Registration β} {c left : Catalog} {a : α}
  {e : Error}

/-- The result of a registration, and the catalog that it leaves. -/
def outcome (x : Registration α) (c : Catalog) : Except Error α × Catalog :=
  ((x c).1.result, (x c).2)

theorem left_of_outcome {r : Except Error α} (h : x.outcome c = (r, left)) : (x c).2 = left :=
  congrArg Prod.snd h

theorem outcome_bind_ok (h : x.outcome c = (.ok a, left)) :
    (x >>= f).outcome c = (f a).outcome left := by
  obtain ⟨hresult, hleft⟩ := Prod.mk.inj h
  show (((x.bind f c).1.result, (x.bind f c).2) : Except Error β × Catalog) = _
  simp only [Registration.bind, hresult, hleft]
  rfl

theorem outcome_bind_error (h : x.outcome c = (.error e, left)) :
    (x >>= f).outcome c = (.error e, left) := by
  obtain ⟨hresult, hleft⟩ := Prod.mk.inj h
  show (((x.bind f c).1.result, (x.bind f c).2) : Except Error β × Catalog) = _
  simp only [Registration.bind, hresult, hleft]

@[simp] theorem outcome_pure (a : α) : (pure a : Registration α).outcome c = (.ok a, c) := rfl

@[simp] theorem outcome_log (event : Event) : (log event).outcome c = (.ok (), c) := rfl

@[simp] theorem outcome_attempt (f : Catalog → Except Error α × Catalog) :
    (attempt f).outcome c = f c := rfl

/-- A check that succeeds leaves the catalog to what comes next. -/
theorem outcome_check_bind_ok {g : Catalog → Except Error α} (h : g c = .ok a) :
    (check g >>= f).outcome c = (f a).outcome c :=
  outcome_bind_ok (congrArg (·, c) h)

/-- A check that fails ends a registration with the catalog as it is. -/
theorem outcome_check_bind_error {g : Catalog → Except Error α} (h : g c = .error e) :
    (check g >>= f).outcome c = (.error e, c) :=
  outcome_bind_error (congrArg (·, c) h)

theorem outcome_ofRun_bind_ok {r : Run Error α} (h : r.result = .ok a) :
    (ofRun r >>= f).outcome c = (f a).outcome c :=
  outcome_bind_ok (congrArg (·, c) h)

theorem outcome_ofRun_bind_error {r : Run Error α} (h : r.result = .error e) :
    (ofRun r >>= f).outcome c = (.error e, c) :=
  outcome_bind_error (congrArg (·, c) h)

theorem outcome_update_ok {f : Catalog → Except Error Catalog} (h : f c = .ok left) :
    (update f).outcome c = (.ok (), left) := by
  simp [outcome, update, h]

end Registration

/-! ## Entries -/

namespace Catalog

/-- What a command registers. -/
inductive Entry where
  /-- A plain action. -/
  | action (a : Action)
  /-- An algorithm. -/
  | algorithm (a : Action)
  /-- A strategy. -/
  | strategy (s : Strategy)

/-- A code is taken neither by an action nor by an algorithm. -/
def IsFree (c : Catalog) (code : String) : Prop :=
  code ∉ c.actions.entries.keys ∧ code ∉ c.algorithms.entries.keys

/-- The catalog with an entry. -/
def enter (c : Catalog) : Entry → Catalog
  | .action a => { c with actions := ⟨c.actions.entries.insert a.code a⟩ }
  | .algorithm a =>
    { c with
      actions := ⟨c.actions.entries.insert a.code a⟩
      algorithms := ⟨c.algorithms.entries.insert a.code a⟩ }
  | .strategy s => { c with implementations := c.implementations.insert s }

/-- What has been checked when an entry is registered. -/
def Admits (c : Catalog) : Entry → Prop
  | .action a => a.graph = none ∧ c.IsFree a.code
  | .algorithm a => a.graph.isSome ∧ c.IsFree a.code
  | .strategy s => s.action.code ∈ c.actions.entries.keys ∧
    s.engine ∉ (c.implementations.strategies s.action.code).keys

/-- The second catalog is the first with an entry at the end of the pools that it belongs to:
    an algorithm belongs to the actions and to the algorithms. -/
def Appends (c : Catalog) : Entry → Catalog → Prop
  | .action a, c' =>
    c'.actions.entries.entries = c.actions.entries.entries ++ [(a.code, a)] ∧
      c'.algorithms = c.algorithms ∧ c'.implementations = c.implementations
  | .algorithm a, c' =>
    c'.actions.entries.entries = c.actions.entries.entries ++ [(a.code, a)] ∧
      c'.algorithms.entries.entries = c.algorithms.entries.entries ++ [(a.code, a)] ∧
      c'.implementations = c.implementations
  | .strategy s, c' =>
    c'.actions = c.actions ∧ c'.algorithms = c.algorithms ∧
      c.implementations.Appends s c'.implementations

variable {c : Catalog} {a : Action} {code : String} {e : Error}

theorem appends_enter {entry : Entry} (h : c.Admits entry) : c.Appends entry (c.enter entry) := by
  cases entry with
  | action a => exact ⟨OrderedMap.entries_insert_of_not_mem h.2.1, rfl, rfl⟩
  | algorithm a =>
    exact ⟨OrderedMap.entries_insert_of_not_mem h.2.1,
      OrderedMap.entries_insert_of_not_mem h.2.2, rfl⟩
  | strategy s => exact ⟨rfl, rfl, StrategyPool.appends_insert h.2⟩

theorem isFree_of_ensureVacant {u : Unit} (h : c.ensureVacant code = .ok u) : c.IsFree code := by
  rw [ensureVacant, Except.bind_eq_ok] at h
  obtain ⟨_, hactions, halgorithms⟩ := h
  exact ⟨ActionPool.not_mem_of_ensureVacant hactions,
    ActionPool.not_mem_of_ensureVacant halgorithms⟩

theorem ensureVacant_of_isFree (h : c.IsFree code) : c.ensureVacant code = .ok () := by
  rw [ensureVacant, ActionPool.ensureVacant_of_not_mem h.1,
    ActionPool.ensureVacant_of_not_mem h.2]
  rfl

theorem outcome_addAction (h : a.code ∉ c.actions.entries.keys) :
    (addAction a).outcome c =
      (.ok (), { c with actions := ⟨c.actions.entries.insert a.code a⟩ }) :=
  Registration.outcome_update_ok (by rw [ActionPool.register_of_not_mem h]; rfl)

theorem outcome_addAlgorithm (h : a.code ∉ c.algorithms.entries.keys) :
    (addAlgorithm a).outcome c =
      (.ok (), { c with algorithms := ⟨c.algorithms.entries.insert a.code a⟩ }) :=
  Registration.outcome_update_ok (by rw [ActionPool.register_of_not_mem h]; rfl)

/-- A finished algorithm whose code is free is registered in both pools. -/
theorem outcome_insertAlgorithm (h : c.IsFree a.code) :
    (insertAlgorithm a).outcome c = (.ok (), c.enter (.algorithm a)) := by
  rw [insertAlgorithm, Registration.outcome_check_bind_ok (ensureVacant_of_isFree h),
    Registration.outcome_bind_ok (outcome_addAction h.1)]
  exact outcome_addAlgorithm h.2

end Catalog

theorem Action.of_ofParameters {a : Action} {code : String} {inlets outlets : List Parameter}
    (h : Action.ofParameters code inlets outlets = .ok a) : a.code = code ∧ a.graph = none := by
  rw [ofParameters] at h
  split at h
  · cases h
  · split at h
    · cases h
    · rw [← Except.ok.inj h]
      exact ⟨rfl, rfl⟩

theorem Action.parameters_of_ofParameters {a : Action} {code : String}
    {inlets outlets : List Parameter} (h : Action.ofParameters code inlets outlets = .ok a) :
    a.inlets.parameters = inlets ∧ a.outlets.parameters = outlets := by
  rw [ofParameters] at h
  split at h
  · cases h
  · next hinlets =>
    split at h
    · cases h
    · next houtlets =>
      rw [← Except.ok.inj h]
      exact ⟨Ports.parameters_of_ofParameters hinlets, Ports.parameters_of_ofParameters houtlets⟩

/-- The parameters of an action are those of an action of any code. -/
theorem Action.ofParameters_parameters (a : Action) (code : String) :
    Action.ofParameters code a.inlets.parameters a.outlets.parameters =
      .ok ⟨code, a.inlets, a.outlets, none⟩ := by
  rw [ofParameters, Ports.ofParameters_parameters]
  dsimp only
  rw [Ports.ofParameters_parameters]

namespace Catalog

variable {c : Catalog} {code : String}

/-- A declaration that succeeds has found a free code. -/
theorem outcome_declare_cases (c : Catalog) (code : String) (inlets outlets : List Parameter) :
    (∃ e, (declare code inlets outlets).outcome c = (.error e, c)) ∨
      ∃ a, a.code = code ∧ c.Admits (.action a) ∧
        (declare code inlets outlets).outcome c = (.ok a, c.enter (.action a)) := by
  rw [declare]
  cases hparameters : Action.ofParameters code inlets outlets with
  | error e => exact .inl ⟨e, Registration.outcome_check_bind_error rfl⟩
  | ok a =>
    rw [Registration.outcome_check_bind_ok (g := fun _ => .ok a) rfl]
    cases hvacant : c.ensureVacant a.code with
    | error e => exact .inl ⟨e, Registration.outcome_check_bind_error hvacant⟩
    | ok u =>
      have hfree := isFree_of_ensureVacant hvacant
      obtain ⟨hcode, hgraph⟩ := Action.of_ofParameters hparameters
      refine .inr ⟨a, hcode, ⟨hgraph, hfree⟩, ?_⟩
      rw [Registration.outcome_check_bind_ok hvacant,
        Registration.outcome_bind_ok (outcome_addAction hfree.1),
        Registration.outcome_bind_ok (Registration.outcome_log _), Registration.outcome_pure]
      rfl

/-- A strategy for an engine that its action has one for is refused. -/
theorem outcome_registerStrategy_of_mem {s : Strategy}
    (hcode : s.action.code ∈ c.actions.entries.keys)
    (hmem : s.engine ∈ (c.implementations.strategies s.action.code).keys) :
    (registerStrategy s).outcome c =
      (.error (.engineAlreadyExists s.action.code s.engine), c) := by
  obtain ⟨⟨_, a⟩, ha, rfl⟩ := List.mem_map.1 hcode
  have hadd : (addStrategy s).outcome c =
      (.error (.engineAlreadyExists s.action.code s.engine), c) := by
    rw [addStrategy, Registration.outcome_attempt, StrategyPool.add_of_mem hmem]
  rw [registerStrategy, Registration.outcome_check_bind_ok (ActionPool.get_eq_ok_iff.2 ha)]
  exact Registration.outcome_bind_error hadd

/-- A strategy that is registered is one of a registered action, for a new engine. -/
theorem outcome_registerStrategy_cases (c : Catalog) (s : Strategy) :
    (∃ e, (registerStrategy s).outcome c = (.error e, c)) ∨
      c.Admits (.strategy s) ∧
        (registerStrategy s).outcome c = (.ok (), c.enter (.strategy s)) := by
  cases haction : c.actions.get s.action.code with
  | error e =>
    rw [registerStrategy]
    exact .inl ⟨e, Registration.outcome_check_bind_error haction⟩
  | ok a =>
    have hcode : s.action.code ∈ c.actions.entries.keys :=
      List.mem_map_of_mem (ActionPool.get_eq_ok_iff.1 haction)
    by_cases hmem : s.engine ∈ (c.implementations.strategies s.action.code).keys
    · exact .inl ⟨_, outcome_registerStrategy_of_mem hcode hmem⟩
    · have hadd : (addStrategy s).outcome c = (.ok (), c.enter (.strategy s)) := by
        rw [addStrategy, Registration.outcome_attempt, StrategyPool.add_of_not_mem hmem]
        rfl
      rw [registerStrategy, Registration.outcome_check_bind_ok haction]
      exact .inr ⟨⟨hcode, hmem⟩, Registration.outcome_bind_ok hadd⟩

/-- A build whose code is free, and whose builder gives a graph, succeeds. -/
theorem outcome_build_of_graph {inlets outlets : List Parameter} {identity : Identity}
    {builder : Builder.Fallible Produced} {shell : Action} {g : Graph}
    (hshell : c.shell code inlets outlets = .ok shell)
    (hgraph : (Builder.graph builder identity shell).result = .ok g) :
    shell.code = code ∧ c.IsFree code ∧
      (build identity code inlets outlets builder).outcome c =
        (.ok { shell with graph := some g },
          c.enter (.algorithm { shell with graph := some g })) := by
  have hparameters := hshell
  rw [Catalog.shell, Except.bind_eq_ok] at hparameters
  obtain ⟨_, hvacant, hparameters⟩ := hparameters
  obtain ⟨rfl, -⟩ := Action.of_ofParameters hparameters
  have hfree := isFree_of_ensureVacant hvacant
  have hinsert := outcome_insertAlgorithm (a := { shell with graph := some g }) hfree
  refine ⟨rfl, hfree, ?_⟩
  rw [build, Registration.outcome_check_bind_ok hshell, Registration.outcome_ofRun_bind_ok hgraph,
    Registration.outcome_bind_ok hinsert, Registration.outcome_bind_ok (Registration.outcome_log _),
    Registration.outcome_pure]

/-- A build that succeeds has found a free code, before its builder ran; what the builder does
    reaches no catalog. -/
theorem outcome_build_cases (c : Catalog) (identity : Identity) (code : String)
    (inlets outlets : List Parameter) (builder : Builder.Fallible Produced) :
    (∃ e, (build identity code inlets outlets builder).outcome c = (.error e, c)) ∨
      ∃ a, a.code = code ∧ c.Admits (.algorithm a) ∧
        (build identity code inlets outlets builder).outcome c =
          (.ok a, c.enter (.algorithm a)) := by
  cases hshell : c.shell code inlets outlets with
  | error e => exact .inl ⟨e, Registration.outcome_check_bind_error hshell⟩
  | ok shell =>
    cases hgraph : (Builder.graph builder identity shell).result with
    | error e =>
      rw [build, Registration.outcome_check_bind_ok hshell]
      exact .inl ⟨e, Registration.outcome_ofRun_bind_error hgraph⟩
    | ok g =>
      obtain ⟨rfl, hfree, houtcome⟩ := outcome_build_of_graph hshell hgraph
      exact .inr ⟨{ shell with graph := some g }, rfl, ⟨rfl, hfree⟩, houtcome⟩

/-! ## Commands -/

/-- A call that registers something, with its arguments. -/
inductive Command where
  /-- Declares a plain action. -/
  | declare (code : String) (inlets outlets : List Parameter)
  /-- Registers a callable as the strategy of an action for an engine. -/
  | implement (a : Action) (engine : EngineKey) (callable : Callable)
  /-- Registers another action as the strategy of an action for an engine. -/
  | delegate (a : Action) (engine : EngineKey) (target : Action)
  /-- Registers a strategy. -/
  | registerStrategy (s : Strategy)
  /-- Builds an algorithm. -/
  | build (identity : Identity) (code : String) (inlets outlets : List Parameter)
    (builder : Builder.Fallible Produced)

namespace Command

/-- Carries out a command; gives the entry that it registers. -/
def run : Command → Registration Entry
  | declare code inlets outlets => do return .action (← Catalog.declare code inlets outlets)
  | implement a engine callable => do
    Catalog.implement a engine callable
    return .strategy ⟨a, engine, .callable callable⟩
  | delegate a engine target => do
    Catalog.delegate a engine target
    return .strategy ⟨a, engine, .action target⟩
  | registerStrategy s => do
    Catalog.registerStrategy s
    return .strategy s
  | build identity code inlets outlets builder => do
    return .algorithm (← Catalog.build identity code inlets outlets builder)

/-- The entries that a command may register: a plain action or an algorithm of the code, or the
    strategy. -/
def Registers : Command → Entry → Prop
  | declare code _ _, .action a => a.code = code ∧ a.graph = none
  | implement a engine callable, .strategy s => s = ⟨a, engine, .callable callable⟩
  | delegate a engine target, .strategy s => s = ⟨a, engine, .action target⟩
  | registerStrategy s, .strategy s' => s' = s
  | build _ code _ _ _, .algorithm a => a.code = code ∧ a.graph.isSome
  | _, _ => False

/-- A command fails and changes nothing, or it registers an entry that the catalog admits. -/
theorem outcome_cases (c : Catalog) (command : Command) :
    (∃ e, command.run.outcome c = (.error e, c)) ∨
      ∃ entry, command.Registers entry ∧ c.Admits entry ∧
        command.run.outcome c = (.ok entry, c.enter entry) := by
  have strategy (s : Strategy) :
      (∃ e, (do Catalog.registerStrategy s; return Entry.strategy s).outcome c = (.error e, c)) ∨
        c.Admits (.strategy s) ∧
          (do Catalog.registerStrategy s; return Entry.strategy s).outcome c =
            (.ok (.strategy s), c.enter (.strategy s)) := by
    rcases outcome_registerStrategy_cases c s with ⟨e, h⟩ | ⟨hadmits, h⟩
    · exact .inl ⟨e, Registration.outcome_bind_error h⟩
    · exact .inr ⟨hadmits, Registration.outcome_bind_ok h⟩
  cases command with
  | declare code inlets outlets =>
    rcases outcome_declare_cases c code inlets outlets with ⟨e, h⟩ | ⟨a, hcode, hadmits, h⟩
    · exact .inl ⟨e, Registration.outcome_bind_error h⟩
    · exact .inr ⟨.action a, ⟨hcode, hadmits.1⟩, hadmits, Registration.outcome_bind_ok h⟩
  | implement a engine callable =>
    exact (strategy ⟨a, engine, .callable callable⟩).imp_right fun h => ⟨.strategy _, rfl, h⟩
  | delegate a engine target =>
    exact (strategy ⟨a, engine, .action target⟩).imp_right fun h => ⟨.strategy _, rfl, h⟩
  | registerStrategy s => exact (strategy s).imp_right fun h => ⟨.strategy _, rfl, h⟩
  | build identity code inlets outlets builder =>
    rcases outcome_build_cases c identity code inlets outlets builder with
      ⟨e, h⟩ | ⟨a, hcode, hadmits, h⟩
    · exact .inl ⟨e, Registration.outcome_bind_error h⟩
    · exact .inr ⟨.algorithm a, ⟨hcode, hadmits.1⟩, hadmits, Registration.outcome_bind_ok h⟩

/-- A command that fails leaves a catalog with the same entries in the same order; one that
    succeeds puts its entry at the end, and that is all that it changes. -/
theorem outcome_appends (c : Catalog) (command : Command) :
    match command.run.outcome c with
    | (.ok entry, left) => command.Registers entry ∧ c.Appends entry left
    | (.error _, left) => left = c := by
  rcases outcome_cases c command with ⟨e, h⟩ | ⟨entry, hregisters, hadmits, h⟩
  · rw [h]
  · rw [h]
    exact ⟨hregisters, appends_enter hadmits⟩

end Command

namespace Pipe

/-- An action that passes a value on. -/
def pipe : Action where
  code := "Pipe"
  inlets := ⟨[⟨"given", .any⟩], List.nodup_singleton _⟩
  outlets := ⟨[⟨"passed", .any⟩], List.nodup_singleton _⟩
  graph := none

/-- The algorithm that passes a value on by the action. -/
def pipeline : Action where
  code := "Pipeline"
  inlets := pipe.inlets
  outlets := pipe.outlets
  graph := some {
    steps := [⟨"Pipeline", 0, pipe⟩]
    binds := .ofList [(.stepInlet ⟨0, 0⟩, .inlet 0), (.outlet 0, .stepOutlet ⟨0, 0⟩)] }

/-- The strategy of the action. -/
def strategy : Strategy :=
  ⟨pipe, ⟨"host"⟩, .callable ⟨["given"], fun args => .ok (.sequence args.values)⟩⟩

/-- Declares the action. -/
def declaration : Command := .declare "Pipe" pipe.inlets.parameters pipe.outlets.parameters

/-- Builds the algorithm. -/
def construction : Command :=
  .build 0 "Pipeline" pipe.inlets.parameters pipe.outlets.parameters do
    let a ← Builder.inlet (.code "given")
    return .single (.step (← Builder.invoke pipe [.port a] []))

/-- Registers the strategy. -/
def registration : Command := .registerStrategy strategy

/-- The catalog with the action. -/
def declared : Catalog := (declaration.run.outcome ∅).2

/-- The catalog with the algorithm as well. -/
def constructed : Catalog := (construction.run.outcome declared).2

/-- The catalog with the strategy as well. -/
def registered : Catalog := (registration.run.outcome constructed).2

end Pipe

/-- An action, an algorithm and a strategy are registered one after the other. The same strategy
    once more is refused. -/
theorem Command.outcome_appends_pipe :
    (∅ : Catalog).Appends (.action Pipe.pipe) Pipe.declared ∧
      Pipe.declared.Appends (.algorithm Pipe.pipeline) Pipe.constructed ∧
      Pipe.constructed.Appends (.strategy Pipe.strategy) Pipe.registered ∧
      Pipe.registration.run.outcome Pipe.registered =
        (.error (.engineAlreadyExists "Pipe" ⟨"host"⟩), Pipe.registered) := by
  have hdeclared : Pipe.declaration.Registers (.action Pipe.pipe) ∧
      (∅ : Catalog).Appends (.action Pipe.pipe) Pipe.declared :=
    outcome_appends ∅ Pipe.declaration
  have hconstructed : Pipe.construction.Registers (.algorithm Pipe.pipeline) ∧
      Pipe.declared.Appends (.algorithm Pipe.pipeline) Pipe.constructed :=
    outcome_appends Pipe.declared Pipe.construction
  have hregistered : Pipe.registration.Registers (.strategy Pipe.strategy) ∧
      Pipe.constructed.Appends (.strategy Pipe.strategy) Pipe.registered :=
    outcome_appends Pipe.constructed Pipe.registration
  have hrefused : (Pipe.registration.run.outcome Pipe.registered).2 = Pipe.registered :=
    outcome_appends Pipe.registered Pipe.registration
  exact ⟨hdeclared.2, hconstructed.2, hregistered.2, Prod.ext rfl hrefused⟩

/-! ## Sequences of commands -/

/-- The strategy that an entry is, if it is one. -/
def Entry.strategy? : Entry → Option Strategy
  | strategy s => some s
  | _ => none

/-- The catalog after commands, one after the other, some of which may fail. -/
def after (c : Catalog) : List Command → Catalog
  | [] => c
  | command :: rest => (command.run.outcome c).2.after rest

/-- The entries that commands register, in order: those of the commands that succeed. -/
def entered (c : Catalog) : List Command → List Entry
  | [] => []
  | command :: rest =>
    let (r, left) := command.run.outcome c
    r.toOption.toList ++ left.entered rest

/-- The strategies that commands register, in order. -/
def registered (c : Catalog) (commands : List Command) : List Strategy :=
  (c.entered commands).filterMap Entry.strategy?

/-- The first of some commands changes nothing, or it registers an entry. -/
theorem after_cons_cases (c : Catalog) (command : Command) (rest : List Command) :
    (c.after (command :: rest) = c.after rest ∧
        c.registered (command :: rest) = c.registered rest) ∨
      ∃ entry, c.Admits entry ∧ c.after (command :: rest) = (c.enter entry).after rest ∧
        c.registered (command :: rest) =
          entry.strategy?.toList ++ (c.enter entry).registered rest := by
  rcases command.outcome_cases c with ⟨e, h⟩ | ⟨entry, -, hadmits, h⟩
  · exact .inl ⟨by rw [after, h], by rw [registered, entered, h]; rfl⟩
  · refine .inr ⟨entry, hadmits, by rw [after, h], ?_⟩
    rw [registered, entered, h]
    cases entry <;> rfl

/-- What entering an admitted entry preserves, every sequence of commands preserves. -/
theorem after_induction {P : Catalog → Prop}
    (henter : ∀ c entry, c.Admits entry → P c → P (c.enter entry)) (h : P c)
    (commands : List Command) : P (c.after commands) := by
  induction commands generalizing c with
  | nil => exact h
  | cons command rest ih =>
    rcases after_cons_cases c command rest with ⟨hafter, -⟩ | ⟨entry, hadmits, hafter, -⟩
    · exact hafter ▸ ih h
    · exact hafter ▸ ih (henter c entry hadmits h)

/-- The strategies of an action are kept with their engines. -/
def strategiesOf (code : String) (l : List Strategy) : List (EngineKey × Strategy) :=
  (l.filter (·.action.code = code)).map fun s => (s.engine, s)

theorem strategiesOf_append (code : String) (l l' : List Strategy) :
    strategiesOf code (l ++ l') = strategiesOf code l ++ strategiesOf code l' := by
  simp only [strategiesOf, List.filter_append, List.map_append]

theorem entries_strategies_enter {entry : Entry} (h : c.Admits entry) (code : String) :
    ((c.enter entry).implementations.strategies code).entries =
      (c.implementations.strategies code).entries ++
        strategiesOf code entry.strategy?.toList := by
  cases entry with
  | action a => exact (List.append_nil _).symm
  | algorithm a => exact (List.append_nil _).symm
  | strategy s =>
    show ((c.implementations.insert s).strategies code).entries = _
    rw [StrategyPool.strategies_insert]
    by_cases hcode : s.action.code = code
    · subst hcode
      rw [if_pos rfl, OrderedMap.entries_insert_of_not_mem h.2]
      simp [strategiesOf, Entry.strategy?]
    · rw [if_neg (Ne.symm hcode)]
      simp [strategiesOf, Entry.strategy?, hcode]

/-- After commands the strategies of an action are those before and those that the commands
    registered, in order. -/
theorem entries_strategies_after (c : Catalog) (commands : List Command) (code : String) :
    ((c.after commands).implementations.strategies code).entries =
      (c.implementations.strategies code).entries ++
        strategiesOf code (c.registered commands) := by
  induction commands generalizing c with
  | nil => exact (List.append_nil _).symm
  | cons command rest ih =>
    rcases after_cons_cases c command rest with ⟨hafter, hregistered⟩ |
      ⟨entry, hadmits, hafter, hregistered⟩
    · rw [hafter, hregistered, ih]
    · rw [hafter, hregistered, ih, entries_strategies_enter hadmits, strategiesOf_append,
        List.append_assoc]

end Catalog

end Dataflow
