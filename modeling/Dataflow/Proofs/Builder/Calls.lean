import Dataflow.Builder
import Dataflow.Proofs.Action

/-!
# The calls of a builder

What a builder program did to its scope is told by the list of its calls: steps placed, binds
made and actions invoked, in order (`Builder.Call`, `Builder.Makes`). A call that fails is on the
list like any other one, and a program may be seen to invoke an action or to place and bind on
its own.

Every call has the actions that it places (`Builder.Call.placed`) and the binds that it makes
(`Builder.Call.binds`): none if it fails, but for an invocation, which places its action in any
case and makes the binds of its arguments up to the first that fails. A program leaves a scope
with what its calls have placed and bound, and nothing else
(`Builder.Makes.scope_run`).
-/

namespace Dataflow

/-! ## What handles denote -/

/-- The source that a terminal is in a scope, if the scope issued it and it may be one. -/
def Terminal.source? (scope : Identity) (t : Terminal) : Option Source :=
  if t.scope = scope then
    match t.port with
    | .inlet i => some (.inlet i)
    | .stepOutlet port => some (.stepOutlet port)
    | .stepInlet _ => none
  else none

/-- The destination that a terminal is in a scope, if the scope issued it and it may be one. -/
def Terminal.destination? (scope : Identity) (t : Terminal) : Option Destination :=
  if t.scope = scope then
    match t.port with
    | .stepInlet port => some (.stepInlet port)
    | .inlet _ | .stepOutlet _ => none
  else none

/-- The source that an output is in a scope, if it may be one: a literal, a terminal, or a step of
    the scope with one outlet, which it stands for. -/
def Output.source? (scope : Identity) : Output → Option Source
  | .const v => some (.const v)
  | .port t => t.source? scope
  | .step h =>
    if h.scope = scope ∧ h.action.outlets.size = 1 then some (.stepOutlet ⟨h.ordinal, 0⟩) else none

namespace StepHandle

variable (h : StepHandle) (key : PortKey)

theorem toOption_portIndex (direction : Direction) :
    (h.portIndex direction key).toOption = (h.action.ports direction).indexOf? key := by
  rw [portIndex]
  rcases hi : (h.action.ports direction).indexOf? key with - | i
  · rw [Action.port, hi]
    rfl
  · obtain ⟨p, hp⟩ := Ports.exists_getElem? (Ports.lt_of_indexOf? hi)
    rw [Action.port_of_indexOf? hi hp]
    rfl

theorem toOption_inlet : (h.inlet key).toOption =
    (h.action.inlets.indexOf? key).map fun i => ⟨h.scope, .stepInlet ⟨h.ordinal, i⟩⟩ := by
  rw [inlet, Except.toOption_bind, toOption_portIndex, Option.map_eq_bind]
  rfl

theorem toOption_outlet : (h.outlet key).toOption =
    (h.action.outlets.indexOf? key).map fun i => ⟨h.scope, .stepOutlet ⟨h.ordinal, i⟩⟩ := by
  rw [outlet, Except.toOption_bind, toOption_portIndex, Option.map_eq_bind]
  rfl

end StepHandle

namespace Scope

variable {s s' : Scope} {source : Output} {destination : Terminal}

theorem toOption_checkIssued (scope : Identity) :
    (s.checkIssued scope).toOption = if scope = s.identity then some () else none := by
  rw [checkIssued]
  split <;> rfl

theorem toOption_sourceOfTerminal (t : Terminal) :
    (s.sourceOfTerminal t).toOption = t.source? s.identity := by
  rw [sourceOfTerminal, Except.toOption_bind, toOption_checkIssued, Terminal.source?]
  split
  · cases t.port <;> rfl
  · rfl

/-- An output resolves to the source that it is. -/
theorem toOption_resolveSource (output : Output) :
    (s.resolveSource output).toOption = output.source? s.identity := by
  cases output with
  | const v => rfl
  | port t => exact toOption_sourceOfTerminal t
  | step h =>
    have hnone (h' : ¬(h.scope = s.identity ∧ h.action.outlets.size = 1)) :
        (Output.step h).source? s.identity = none := if_neg h'
    rw [resolveSource, Except.toOption_bind, toOption_checkIssued]
    by_cases hscope : h.scope = s.identity
    · rw [if_pos hscope, Option.bind_some]
      by_cases hmany : 1 < h.action.outlets.size
      · -- A step of several outlets stands for none of them.
        rw [hnone (by omega)]
        simp only [if_pos hmany]
        rfl
      · simp only [if_neg hmany]
        show (h.outlet (.index 0) >>= s.sourceOfTerminal).toOption = _
        rw [Except.toOption_bind, StepHandle.toOption_outlet, Ports.indexOf?]
        by_cases hone : h.action.outlets.size = 1
        · rw [if_pos (by omega), Option.map_some, Option.bind_some, toOption_sourceOfTerminal,
            Terminal.source?, if_pos hscope, Output.source?, if_pos ⟨hscope, hone⟩]
        · rw [hnone (by omega), if_neg (by omega)]
          rfl
    · rw [if_neg hscope, hnone fun h' => hscope h'.1]
      rfl

/-- A terminal resolves to the destination that it is. -/
theorem toOption_resolveDestination (t : Terminal) :
    (s.resolveDestination t).toOption = t.destination? s.identity := by
  rw [resolveDestination, Except.toOption_bind, toOption_checkIssued, Terminal.destination?]
  split
  · cases t.port <;> rfl
  · rfl

end Scope

namespace Builder

/-- The bind that is made in a scope of a source and a destination, if both may be that. -/
def bound? (scope : Identity) (source : Output) (destination : Terminal) :
    Option (Destination × Source) := do
  let source ← source.source? scope
  let destination ← destination.destination? scope
  return (destination, source)

/-- A call of a builder program. -/
inductive Call where
  /-- Places an action. -/
  | register (a : Action)
  /-- Binds a source to a destination. -/
  | bind (source : Output) (destination : Terminal)
  /-- Places an action and binds its arguments. -/
  | invoke (a : Action) (positional : List Output) (named : List (String × Output))

namespace Call

/-- The arguments of an invocation with the addresses of their inlets: those without a name by
    index, then the others by code. -/
def arguments (positional : List Output) (named : List (String × Output)) :
    List (PortKey × Output) :=
  positional.mapIdx (fun i output => (.index i, output)) ++
    named.map fun (name, output) => (.code name, output)

/-- The bind of an argument of the step `k`, if there is the inlet and the argument is a source. -/
def argument? (scope : Identity) (k : Nat) (a : Action) (key : PortKey) (output : Output) :
    Option (Destination × Source) := do
  let i ← a.inlets.indexOf? key
  let source ← output.source? scope
  return (.stepInlet ⟨k, i⟩, source)

/-- The binds of the arguments of the step `k`, up to the first that fails. -/
def argumentBinds (scope : Identity) (k : Nat) (a : Action) :
    List (PortKey × Output) → List (Destination × Source)
  | [] => []
  | (key, output) :: rest =>
    match argument? scope k a key output with
    | some bound => bound :: argumentBinds scope k a rest
    | none => []

/-- The actions that a call places. -/
def placed : Call → List Action
  | register a => [a]
  | bind _ _ => []
  | invoke a _ _ => [a]

/-- The binds that a call makes, if the next step is the step `k`. -/
def binds (scope : Identity) (k : Nat) : Call → List (Destination × Source)
  | register _ => []
  | bind source destination => (bound? scope source destination).toList
  | invoke a positional named => argumentBinds scope k a (arguments positional named)

/-- What a call answers. -/
def Answer : Call → Type
  | register _ => StepHandle
  | bind _ _ => Except Error Unit
  | invoke _ _ _ => Except Error StepHandle

/-- The program that makes a call and ends with its answer. -/
def program : (c : Call) → Builder c.Answer
  | register a => .register a .done
  | bind source destination => .bind source destination .done
  | invoke a positional named => ExceptT.run (Builder.invoke a positional named)

/-- The binds that calls make one after the other, if the next step is the step `k`. -/
def allBinds (scope : Identity) : Nat → List Call → List (Destination × Source)
  | _, [] => []
  | k, c :: rest => c.binds scope k ++ allBinds scope (k + c.placed.length) rest

/-- The source of the last bind that calls make of an inlet of a step. -/
def lastSource? (scope : Identity) (calls : List Call) (port : StepPort) : Option Source :=
  (allBinds scope 0 calls).reverse.lookup (.stepInlet port)

/-- The destinations that calls bind, in the order in which each is bound first. -/
def destinations (scope : Identity) (calls : List Call) : List Destination :=
  ((allBinds scope 0 calls).map Prod.fst).eraseDups

end Call

/-- A program that starts in a scope makes calls, in order, and each time goes on from the answer,
    be it an error, in the scope that the call leaves. -/
inductive Makes {α : Type} : Builder α → Scope → List Call → Prop
  /-- The end. -/
  | done {a : α} {s : Scope} : Makes (.done a) s []
  /-- Looking at the scope is no call. -/
  | inspect {next : Scope → Builder α} {s : Scope} {calls : List Call}
    (h : Makes (next s) s calls) : Makes (.inspect next) s calls
  /-- A call, then those that follow on its answer. -/
  | call {c : Call} {next : c.Answer → Builder α} {s : Scope} {calls : List Call}
    (h : Makes (next (c.program.run s).1) (c.program.run s).2.1 calls) :
    Makes (c.program >>= next) s (c :: calls)

variable {α : Type}

/-- Every program makes calls. -/
theorem exists_makes (x : Builder α) (s : Scope) : ∃ calls, x.Makes s calls := by
  induction x generalizing s with
  | done a => exact ⟨[], .done⟩
  | inspect next ih =>
    obtain ⟨calls, h⟩ := ih s s
    exact ⟨calls, .inspect h⟩
  | register a next ih =>
    obtain ⟨calls, h⟩ := ih (s.register a).1 (s.register a).2
    exact ⟨_, .call (c := .register a) h⟩
  | bind source destination next ih =>
    obtain ⟨calls, h⟩ := ih ((Call.bind source destination).program.run s).1
      ((Call.bind source destination).program.run s).2.1
    exact ⟨_, .call (c := .bind source destination) h⟩

/-- The calls do not depend on how a chain of programs is cut. -/
theorem Makes.of_assoc {β γ : Type} {x : Builder β} {f : β → Builder γ} {g : γ → Builder α}
    {s : Scope} {calls : List Call} (h : (x >>= fun b => f b >>= g).Makes s calls) :
    (x >>= f >>= g).Makes s calls :=
  bind_bind x f g ▸ h

end Builder

/-! ## What calls leave -/

namespace Scope

/-- The scope with actions placed as the next steps. -/
def withSteps (s : Scope) (actions : List Action) : Scope :=
  { s with steps := s.steps ++
      actions.mapIdx fun i a => ⟨s.algorithm.code, s.steps.length + i, a⟩ }

/-- The scope with binds made one after the other. -/
def withBinds (s : Scope) (binds : List (Destination × Source)) : Scope :=
  { s with binds := binds.foldl (fun m bound => m.insert bound.1 bound.2) s.binds }

variable {s : Scope}

@[simp] theorem withSteps_nil : s.withSteps [] = s := by
  rw [withSteps, List.mapIdx_nil, List.append_nil]

theorem withSteps_append (l l' : List Action) :
    s.withSteps (l ++ l') = (s.withSteps l).withSteps l' := by
  simp only [withSteps, List.mapIdx_append, List.append_assoc, List.length_append,
    List.length_mapIdx, Nat.add_assoc, Nat.add_comm]

theorem length_steps_withSteps (l : List Action) :
    (s.withSteps l).steps.length = s.steps.length + l.length := by
  rw [withSteps, List.length_append, List.length_mapIdx]

theorem withBinds_append (l l' : List (Destination × Source)) :
    s.withBinds (l ++ l') = (s.withBinds l).withBinds l' := by
  rw [withBinds, List.foldl_append]
  rfl

/-- A bind is made if the source and the destination may be that, and fails otherwise. -/
theorem bind_cases (s : Scope) (source : Output) (destination : Terminal) :
    (∃ bound, Builder.bound? s.identity source destination = some bound ∧
      s.bind source destination = .ok (s.withBinds [bound])) ∨
    (Builder.bound? s.identity source destination = none ∧
      ∃ e, s.bind source destination = .error e) := by
  have hsource := s.toOption_resolveSource source
  have hdestination := s.toOption_resolveDestination destination
  rw [Scope.bind, Builder.bound?, ← hsource, ← hdestination]
  rcases s.resolveSource source with e | source'
  · exact .inr ⟨rfl, e, rfl⟩
  · rcases s.resolveDestination destination with e | destination'
    · exact .inr ⟨rfl, e, rfl⟩
    · exact .inl ⟨_, rfl, rfl⟩

end Scope

namespace Builder

variable {s : Scope} {h : StepHandle}

/-! ### Invocations -/

/-- Binds outputs to the inlets of a step under their addresses. -/
def connectAll (h : StepHandle) : List (PortKey × Output) → Fallible Unit
  | [] => pure ()
  | (key, output) :: rest => do
    let destination ← ExceptT.mk (done (h.inlet key))
    connect output destination
    connectAll h rest

theorem connectAll_append (l l' : List (PortKey × Output)) :
    connectAll h (l ++ l') = connectAll h l >>= fun _ => connectAll h l' := by
  induction l with
  | nil => rw [List.nil_append, connectAll, pure_bind]
  | cons argument rest ih => simp only [List.cons_append, connectAll, ih, bind_assoc]

theorem bindPositional_eq (i : Nat) (outputs : List Output) :
    bindPositional h i outputs =
      connectAll h (outputs.mapIdx fun j output => (.index (i + j), output)) := by
  induction outputs generalizing i with
  | nil => rfl
  | cons output rest ih =>
    rw [List.mapIdx_cons, bindPositional, connectAll, ih]
    simp only [Nat.add_assoc, Nat.add_comm 1]
    rfl

theorem bindNamed_eq (named : List (String × Output)) :
    bindNamed h named = connectAll h (named.map fun (name, output) => (.code name, output)) := by
  induction named with
  | nil => rfl
  | cons argument rest ih =>
    rw [List.map_cons, bindNamed, connectAll, ih]

/-- An invocation places its action and binds all its arguments. -/
theorem invoke_eq (a : Action) (positional : List Output) (named : List (String × Output)) :
    invoke a positional named = do
      let h ← place a
      connectAll h (Call.arguments positional named)
      return h := by
  simp only [invoke, Call.arguments, connectAll_append, bindPositional_eq, bindNamed_eq,
    Nat.zero_add, bind_assoc]

/-- A program that needs a value goes on with it, or ends with the error in its place. -/
theorem run_mk_done_bind {α β : Type} (x : Except Error α) (f : α → Fallible β) :
    ExceptT.run (ExceptT.mk (done x) >>= f) =
      match x with
      | .ok a => ExceptT.run (f a)
      | .error e => done (.error e) := by
  cases x <;> rfl

/-- An argument of a step of the scope is bound, or it fails and ends the program. -/
theorem run_connectAll_cons (hscope : h.scope = s.identity) (key : PortKey) (output : Output)
    (rest : List (PortKey × Output)) :
    (∃ bound, Call.argument? s.identity h.ordinal h.action key output = some bound ∧
      (ExceptT.run (connectAll h ((key, output) :: rest))).run s =
        (ExceptT.run (connectAll h rest)).run (s.withBinds [bound])) ∨
    (Call.argument? s.identity h.ordinal h.action key output = none ∧
      ∃ e, (ExceptT.run (connectAll h ((key, output) :: rest))).run s = (.error e, s, [])) := by
  have hinlet := h.toOption_inlet key
  rw [connectAll, run_mk_done_bind]
  rcases hkey : h.inlet key with e | destination
  · -- There is no such inlet.
    rw [hkey] at hinlet
    rw [Call.argument?, Option.map_eq_none_iff.1 hinlet.symm]
    exact .inr ⟨rfl, e, rfl⟩
  · rw [hkey] at hinlet
    obtain ⟨i, hi, rfl⟩ := Option.map_eq_some_iff.1 hinlet.symm
    have hargument : Call.argument? s.identity h.ordinal h.action key output =
        bound? s.identity output ⟨h.scope, .stepInlet ⟨h.ordinal, i⟩⟩ := by
      rw [Call.argument?, hi, bound?, Terminal.destination?, if_pos hscope]
      rfl
    rw [hargument]
    show (∃ bound, _ ∧ (bind output ⟨h.scope, .stepInlet ⟨h.ordinal, i⟩⟩ _).run s = _) ∨
      (_ ∧ ∃ e, (bind output ⟨h.scope, .stepInlet ⟨h.ordinal, i⟩⟩ _).run s = _)
    rcases s.bind_cases output ⟨h.scope, .stepInlet ⟨h.ordinal, i⟩⟩ with
      ⟨bound, hbound, hs⟩ | ⟨hbound, e, hs⟩
    · exact .inl ⟨bound, hbound, by rw [run, hs]; rfl⟩
    · exact .inr ⟨hbound, e, by rw [run, hs]; rfl⟩

/-- The arguments of a step of the scope are bound up to the first that fails. -/
theorem scope_run_connectAll (hscope : h.scope = s.identity) (l : List (PortKey × Output)) :
    ((ExceptT.run (connectAll h l)).run s).2.1 =
      s.withBinds (Call.argumentBinds s.identity h.ordinal h.action l) := by
  induction l generalizing s with
  | nil => rfl
  | cons argument rest ih =>
    obtain ⟨key, output⟩ := argument
    rcases run_connectAll_cons hscope key output rest with ⟨bound, hbound, hrun⟩ | ⟨hbound, e, hrun⟩
    · rw [Call.argumentBinds, hrun, hbound]
      exact (ih (s := s.withBinds [bound]) hscope).trans (Scope.withBinds_append [bound] _).symm
    · rw [Call.argumentBinds, hrun, hbound]
      rfl

/-- Arguments that can all be bound end with no error. -/
theorem answer_run_connectAll (hscope : h.scope = s.identity) {l : List (PortKey × Output)}
    (hl : ∀ x ∈ l, (Call.argument? s.identity h.ordinal h.action x.1 x.2).isSome) :
    ((ExceptT.run (connectAll h l)).run s).1 = .ok () := by
  induction l generalizing s with
  | nil => rfl
  | cons argument rest ih =>
    obtain ⟨key, output⟩ := argument
    rcases run_connectAll_cons hscope key output rest with ⟨bound, -, hrun⟩ | ⟨hnone, -⟩
    · rw [hrun]
      exact ih (s := s.withBinds [bound]) hscope fun x hx => hl x (List.mem_cons_of_mem _ hx)
    · have hsome := hl _ List.mem_cons_self
      rw [hnone] at hsome
      cases hsome

/-- A program that changes its answer in the end leaves the same scope. -/
theorem scope_run_bind_pure {α β : Type} (x : Fallible α) (f : α → β) (s : Scope) :
    ((ExceptT.run (x >>= fun a => pure (f a))).run s).2.1 = ((ExceptT.run x).run s).2.1 := by
  show ((ExceptT.run x >>= ExceptT.bindCont _).run s).2.1 = _
  rw [run_bind]
  dsimp only
  rcases ((ExceptT.run x).run s).1 with e | a
  · rfl
  · rfl

/-- An invocation whose arguments can all be bound answers with its step. -/
theorem answer_run_invoke {a : Action} {positional : List Output} {named : List (String × Output)}
    (h : ∀ x ∈ Call.arguments positional named,
      (Call.argument? s.identity s.steps.length a x.1 x.2).isSome) :
    ((ExceptT.run (invoke a positional named)).run s).1 = .ok (s.register a).1 := by
  have hanswer := answer_run_connectAll (h := (s.register a).1) (s := (s.register a).2) rfl h
  rw [invoke_eq]
  show ((ExceptT.run (connectAll (s.register a).1 _) >>= ExceptT.bindCont _).run
    (s.register a).2).1 = _
  rw [run_bind]
  dsimp only
  rw [hanswer]
  rfl

/-- A call leaves what it places and binds. -/
theorem Call.scope_run (c : Call) (s : Scope) :
    (c.program.run s).2.1 =
      (s.withSteps c.placed).withBinds (c.binds s.identity s.steps.length) := by
  cases c with
  | register a => rfl
  | bind source destination =>
    rw [placed, Scope.withSteps_nil, binds]
    show ((Builder.bind source destination done).run s).2.1 = _
    rcases s.bind_cases source destination with ⟨bound, hbound, hs⟩ | ⟨hbound, e, hs⟩
    · rw [run, hs, hbound]
      rfl
    · rw [run, hs, hbound]
      rfl
  | invoke a positional named =>
    rw [program, invoke_eq]
    show ((ExceptT.run (connectAll (s.register a).1 _ >>= fun _ => pure (s.register a).1)).run
      (s.register a).2).2.1 = _
    rw [scope_run_bind_pure, scope_run_connectAll rfl]
    rfl

/-- A program leaves what its calls have placed and bound, and nothing else. -/
theorem Makes.scope_run {α : Type} {x : Builder α} {calls : List Call} (hx : x.Makes s calls) :
    (x.run s).2.1 = (s.withSteps (calls.flatMap Call.placed)).withBinds
      (Call.allBinds s.identity s.steps.length calls) := by
  induction hx with
  | done => rw [List.flatMap_nil, Scope.withSteps_nil]; rfl
  | inspect _ ih => exact ih
  | @call c next s calls _ ih =>
    rw [run_bind]
    show ((next (c.program.run s).1).run (c.program.run s).2.1).2.1 = _
    rw [ih, c.scope_run s, List.flatMap_cons, Scope.withSteps_append, Call.allBinds,
      Scope.withBinds_append, ← Scope.length_steps_withSteps c.placed]
    rfl

/-! ### Where binds go -/

theorem exists_of_bound? {scope : Identity} {source : Output} {destination : Terminal}
    {bound : Destination × Source} (h : bound? scope source destination = some bound) :
    ∃ port, bound.1 = .stepInlet port := by
  obtain ⟨source', -, h⟩ := Option.bind_eq_some_iff.1 h
  obtain ⟨d, hd, h⟩ := Option.bind_eq_some_iff.1 h
  obtain rfl := Option.some.inj h
  rw [Terminal.destination?] at hd
  split at hd
  · split at hd
    · exact ⟨_, (Option.some.inj hd).symm⟩
    · cases hd
    · cases hd
  · cases hd

namespace Call

variable {scope : Identity} {k : Nat} {bound : Destination × Source}

/-- Arguments that can all be bound are all bound. -/
theorem argumentBinds_of_map {a : Action} {l : List (PortKey × Output)}
    {binds : List (Destination × Source)}
    (h : l.map (fun x => argument? scope k a x.1 x.2) = binds.map some) :
    argumentBinds scope k a l = binds := by
  induction l generalizing binds with
  | nil =>
    rw [List.map_eq_nil_iff.1 h.symm]
    rfl
  | cons x rest ih =>
    obtain ⟨bound, later, rfl, hbound, hlater⟩ := List.map_eq_cons_iff.1 h.symm
    dsimp only at hbound
    rw [argumentBinds, ← hbound]
    exact congrArg _ (ih hlater.symm)

theorem exists_of_mem_argumentBinds {a : Action} {l : List (PortKey × Output)}
    (h : bound ∈ argumentBinds scope k a l) : ∃ port, bound.1 = .stepInlet port := by
  induction l with
  | nil => cases h
  | cons argument rest ih =>
    rw [argumentBinds] at h
    split at h
    · next found hfound =>
      rcases List.mem_cons.1 h with rfl | h
      · obtain ⟨i, -, hfound⟩ := Option.bind_eq_some_iff.1 hfound
        obtain ⟨source, -, hfound⟩ := Option.bind_eq_some_iff.1 hfound
        exact ⟨_, congrArg Prod.fst (Option.some.inj hfound).symm⟩
      · exact ih h
    · cases h

/-- All that calls bind are inlets of steps. -/
theorem exists_of_mem_allBinds {calls : List Call} (h : bound ∈ allBinds scope k calls) :
    ∃ port, bound.1 = .stepInlet port := by
  induction calls generalizing k with
  | nil => cases h
  | cons c rest ih =>
    rcases List.mem_append.1 h with h | h
    · cases c with
      | register a => cases h
      | bind source destination => exact exists_of_bound? (Option.mem_toList.1 h)
      | invoke a positional named => exact exists_of_mem_argumentBinds h
    · exact ih h

theorem outlet_not_mem_keys {calls : List Call} {i : Nat} :
    .outlet i ∉ (OrderedMap.ofList (allBinds scope k calls)).keys := by
  intro h
  rw [OrderedMap.keys_ofList_eq_eraseDups, List.mem_eraseDups] at h
  obtain ⟨bound, hbound, houtlet⟩ := List.mem_map.1 h
  obtain ⟨port, hport⟩ := exists_of_mem_allBinds hbound
  rw [hport] at houtlet
  cases houtlet

end Call

end Builder

end Dataflow
