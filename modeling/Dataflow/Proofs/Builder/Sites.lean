import Dataflow.Proofs.Builder.Faults

/-!
# Scopes side by side

Algorithms may be built one inside the other, and handles may be kept: so a scope is given handles
of other scopes, of which there may be any number, open or left long ago. Here scopes are followed
together with the step handles that each of them has issued (`Builder.Site`), through calls to any
of them in any order (`Builder.Sites.after`). What a handle is good for is said by where it comes
from: by the scope that issued it, and by what it was issued for (`Builder.Site.Feeds`,
`Builder.Site.Takes`), not by the identity and the indices that it carries.

The identities of the scopes are distinct, and a site issues handles with the identity of its scope
only (`Builder.Site.Owns`), so the two agree: a scope binds what it has issued for the purpose, and
refuses every handle of another one (`handles_keep_to_their_scope`). A call to one scope does not
touch the others (`Builder.Sites.getElem?_after`).
-/

namespace Dataflow

/-! ## Destinations and binds -/

/-- A terminal cannot be a destination in a scope, which is an error. -/
inductive Terminal.Fault (scope : Identity) (code : String) : Terminal → Error → Prop
  /-- A port of another scope. -/
  | foreign {t : Terminal} (ht : t.scope ≠ scope) :
    Fault scope code t (.invalidBinding code "port belongs to another algorithm")
  /-- An inlet of the algorithm. -/
  | inlet (i : Nat) :
    Fault scope code ⟨scope, .inlet i⟩
      (.invalidBinding code "an algorithm inlet cannot be a destination")
  /-- An outlet of a step. -/
  | stepOutlet (port : StepPort) :
    Fault scope code ⟨scope, .stepOutlet port⟩
      (.invalidBinding code "a step outlet cannot be a destination")

/-- A terminal is a destination or has a fault. -/
theorem Terminal.destination?_or_fault (scope : Identity) (code : String) (t : Terminal) :
    (∃ d, t.destination? scope = some d) ∨ ∃ e, t.Fault scope code e := by
  by_cases ht : t.scope = scope
  · rcases t with ⟨_, port⟩
    cases ht
    cases port with
    | inlet i => exact .inr ⟨_, .inlet i⟩
    | stepInlet port => exact .inl ⟨.stepInlet port, if_pos rfl⟩
    | stepOutlet port => exact .inr ⟨_, .stepOutlet port⟩
  · exact .inr ⟨_, .foreign ht⟩

namespace Scope

variable {s s' : Scope} {source : Output} {destination : Terminal} {e : Error}

/-- A terminal that has a fault does not resolve. -/
theorem resolveDestination_of_fault (h : destination.Fault s.identity s.algorithm.code e) :
    s.resolveDestination destination = .error e := by
  cases h with
  | foreign ht =>
    rw [resolveDestination, checkIssued_of_ne ht]
    rfl
  | inlet i =>
    rw [resolveDestination, checkIssued_of_eq rfl]
    rfl
  | stepOutlet port =>
    rw [resolveDestination, checkIssued_of_eq rfl]
    rfl

/-- A terminal that resolves is a destination. -/
theorem exists_resolveDestination_iff :
    (∃ d, s.resolveDestination destination = .ok d) ↔
      ∃ d, destination.destination? s.identity = some d := by
  simp only [← toOption_resolveDestination, Except.toOption_eq_some_iff]

/-- A terminal resolves to nothing exactly if it has a fault. -/
theorem resolveDestination_eq_error_iff :
    s.resolveDestination destination = .error e ↔
      destination.Fault s.identity s.algorithm.code e := by
  refine Except.eq_error_iff_of_fault ?_ fun _ => resolveDestination_of_fault
  rw [exists_resolveDestination_iff]
  exact destination.destination?_or_fault s.identity s.algorithm.code

/-- A bind succeeds if both ends resolve, and binds the one to the other. -/
theorem bind_eq_ok_iff :
    s.bind source destination = .ok s' ↔
      ∃ source' d, source.source? s.identity = some source' ∧
        destination.destination? s.identity = some d ∧
        s' = { s with binds := s.binds.insert d source' } := by
  simp only [Scope.bind, Except.bind_eq_ok, Except.pure_eq_ok, ← toOption_resolveSource,
    ← toOption_resolveDestination, Except.toOption_eq_some_iff]
  constructor
  · rintro ⟨source', hsource, d, hd, rfl⟩
    exact ⟨source', d, hsource, hd, rfl⟩
  · rintro ⟨source', d, hsource, hd, rfl⟩
    exact ⟨source', hsource, d, hd, rfl⟩

/-- A bind succeeds exactly if its ends are a source and a destination. -/
theorem exists_bind_iff :
    (∃ s', s.bind source destination = .ok s') ↔
      (∃ source', source.source? s.identity = some source') ∧
        ∃ d, destination.destination? s.identity = some d := by
  constructor
  · rintro ⟨s', hs'⟩
    obtain ⟨source', d, hsource, hd, -⟩ := bind_eq_ok_iff.1 hs'
    exact ⟨⟨source', hsource⟩, d, hd⟩
  · rintro ⟨⟨source', hsource⟩, d, hd⟩
    exact ⟨_, bind_eq_ok_iff.2 ⟨source', d, hsource, hd, rfl⟩⟩

/-- A bind fails for its source, or for its destination if the source is one. -/
theorem bind_eq_error_iff :
    s.bind source destination = .error e ↔
      source.Fault s.identity s.algorithm.code e ∨
        (∃ source', source.source? s.identity = some source') ∧
          destination.Fault s.identity s.algorithm.code e := by
  rw [Scope.bind, Except.bind_eq_error, resolveSource_eq_error_iff, ← exists_resolveSource_iff,
    ← resolveDestination_eq_error_iff]
  refine or_congr_right ⟨?_, ?_⟩
  · rintro ⟨source', hsource, h⟩
    rcases Except.bind_eq_error.1 h with h | ⟨_, -, h⟩
    · exact ⟨⟨source', hsource⟩, h⟩
    · cases h
  · rintro ⟨⟨source', hsource⟩, h⟩
    exact ⟨source', hsource, Except.bind_eq_error.2 (.inl h)⟩

end Scope

/-- The identity that an output carries. -/
def Output.scope? : Output → Option Identity
  | const _ => none
  | port t => some t.scope
  | step h => some h.scope

namespace Builder

/-! ## A scope and its handles -/

/-- The step handles that a call issues with its answer. -/
def Call.issued : (c : Call) → c.Answer → List StepHandle
  | register _, h => [h]
  | bind _ _, _ => []
  | invoke _ _ _, .ok h => [h]
  | invoke _ _ _, .error _ => []

/-- A scope with the step handles that it has issued. -/
structure Site where
  /-- The scope. -/
  scope : Scope
  /-- The step handles. -/
  handles : List StepHandle

namespace Site

/-- A fresh scope, which has issued nothing. -/
def start (identity : Identity) (algorithm : Action) : Site := ⟨.start identity algorithm, []⟩

/-- The identity of the scope. -/
def identity (p : Site) : Identity := p.scope.identity

/-- The code of the algorithm. -/
def code (p : Site) : String := p.scope.algorithm.code

/-- A call to the scope. -/
def perform (p : Site) (c : Call) : Site :=
  let (answer, left, _) := c.program.run p.scope
  ⟨left, p.handles ++ c.issued answer⟩

/-- Calls to the scope, one after the other. -/
def after (p : Site) (calls : List Call) : Site := calls.foldl perform p

/-- The terminals that the scope and its step handles give. -/
inductive Issues (p : Site) : Terminal → Prop
  /-- An inlet of the algorithm. -/
  | inlet {t : Terminal} (key : PortKey) (ht : p.scope.inlet key = .ok t) : Issues p t
  /-- An inlet of a step. -/
  | stepInlet {t : Terminal} {h : StepHandle} (hh : h ∈ p.handles) (key : PortKey)
    (ht : h.inlet key = .ok t) : Issues p t
  /-- An outlet of a step. -/
  | stepOutlet {t : Terminal} {h : StepHandle} (hh : h ∈ p.handles) (key : PortKey)
    (ht : h.outlet key = .ok t) : Issues p t

/-- The handles that the scope and its step handles give, as outputs. -/
inductive IssuesOutput (p : Site) : Output → Prop
  /-- A terminal. -/
  | port {t : Terminal} (ht : p.Issues t) : IssuesOutput p (.port t)
  /-- A step handle. -/
  | step {h : StepHandle} (hh : h ∈ p.handles) : IssuesOutput p (.step h)

/-- What is a source in the scope: a literal, and what the scope has issued as an inlet of the
    algorithm, as an outlet of a step or as a step that has one outlet. -/
inductive Feeds (p : Site) : Output → Prop
  /-- A literal. -/
  | const (v : Value) : Feeds p (.const v)
  /-- An inlet of the algorithm. -/
  | inlet {t : Terminal} (key : PortKey) (ht : p.scope.inlet key = .ok t) : Feeds p (.port t)
  /-- An outlet of a step. -/
  | stepOutlet {t : Terminal} {h : StepHandle} (hh : h ∈ p.handles) (key : PortKey)
    (ht : h.outlet key = .ok t) : Feeds p (.port t)
  /-- A step with one outlet. -/
  | step {h : StepHandle} (hh : h ∈ p.handles) (hone : h.action.outlets.size = 1) :
    Feeds p (.step h)

/-- What is a destination in the scope: what it has issued as an inlet of a step. -/
inductive Takes (p : Site) : Terminal → Prop
  /-- An inlet of a step. -/
  | stepInlet {t : Terminal} {h : StepHandle} (hh : h ∈ p.handles) (key : PortKey)
    (ht : h.inlet key = .ok t) : Takes p t

/-- The step handles carry the identity of the scope. -/
def Owns (p : Site) : Prop := ∀ h ∈ p.handles, h.scope = p.identity

end Site

/-! ### What is issued -/

/-- An inlet of the algorithm is issued in the name of the scope. -/
theorem eq_of_scope_inlet {s : Scope} {key : PortKey} {t : Terminal} (h : s.inlet key = .ok t) :
    ∃ i, t = ⟨s.identity, .inlet i⟩ := by
  obtain ⟨port, -, hport⟩ := Except.bind_eq_ok.1 h
  exact ⟨port.index, (Except.pure_eq_ok.1 hport).symm⟩

/-- An inlet of a step is issued in the name of the scope of its step. -/
theorem eq_of_handle_inlet {h : StepHandle} {key : PortKey} {t : Terminal}
    (ht : h.inlet key = .ok t) : ∃ port, t = ⟨h.scope, .stepInlet port⟩ := by
  obtain ⟨i, -, hi⟩ := Except.bind_eq_ok.1 ht
  exact ⟨⟨h.ordinal, i⟩, (Except.pure_eq_ok.1 hi).symm⟩

theorem eq_of_handle_outlet {h : StepHandle} {key : PortKey} {t : Terminal}
    (ht : h.outlet key = .ok t) : ∃ port, t = ⟨h.scope, .stepOutlet port⟩ := by
  obtain ⟨i, -, hi⟩ := Except.bind_eq_ok.1 ht
  exact ⟨⟨h.ordinal, i⟩, (Except.pure_eq_ok.1 hi).symm⟩

/-- An invocation that ends with no error answers with the step that it has placed. -/
theorem eq_of_run_invoke {s : Scope} {a : Action} {positional : List Output}
    {named : List (String × Output)} {h : StepHandle}
    (hanswer : ((ExceptT.run (invoke a positional named)).run s).1 = .ok h) :
    h = (s.register a).1 := by
  rw [invoke_eq] at hanswer
  change ((ExceptT.run (connectAll (s.register a).1 _) >>= ExceptT.bindCont _).run
    (s.register a).2).1 = _ at hanswer
  rw [run_bind] at hanswer
  dsimp only at hanswer
  revert hanswer
  rcases ((ExceptT.run (connectAll (s.register a).1 (Call.arguments positional named))).run
    (s.register a).2).1 with e | _
  · rintro ⟨⟩
  · exact fun hanswer => (Except.ok.inj hanswer).symm

/-- What a call issues carries the identity of the scope. -/
theorem Call.scope_of_issued {c : Call} {s : Scope} {h : StepHandle}
    (hissued : h ∈ c.issued (c.program.run s).1) : h.scope = s.identity := by
  cases c with
  | register a =>
    obtain rfl := List.mem_singleton.1 hissued
    rfl
  | bind source destination => cases hissued
  | invoke a positional named =>
    rcases hanswer : ((Call.invoke a positional named).program.run s).1 with e | placed
    · rw [hanswer] at hissued
      cases hissued
    · rw [hanswer] at hissued
      obtain rfl := List.mem_singleton.1 hissued
      rw [eq_of_run_invoke hanswer]
      rfl

namespace Site

variable {p q : Site} {t : Terminal} {output : Output}

theorem owns_start (identity : Identity) (algorithm : Action) : (start identity algorithm).Owns :=
  fun _ h => nomatch h

theorem identity_perform (p : Site) (c : Call) : (p.perform c).identity = p.identity := by
  show (c.program.run p.scope).2.1.identity = _
  rw [c.scope_run]
  rfl

theorem Owns.perform (hp : p.Owns) (c : Call) : (p.perform c).Owns := by
  intro h hh
  rw [p.identity_perform c]
  rcases List.mem_append.1 hh with hh | hh
  · exact hp h hh
  · exact Call.scope_of_issued hh

theorem Issues.scope_eq (hp : p.Owns) (h : p.Issues t) : t.scope = p.identity := by
  cases h with
  | inlet key ht =>
    obtain ⟨i, rfl⟩ := eq_of_scope_inlet ht
    rfl
  | stepInlet hh key ht =>
    obtain ⟨port, rfl⟩ := eq_of_handle_inlet ht
    exact hp _ hh
  | stepOutlet hh key ht =>
    obtain ⟨port, rfl⟩ := eq_of_handle_outlet ht
    exact hp _ hh

theorem IssuesOutput.scope?_eq (hp : p.Owns) (h : p.IssuesOutput output) :
    output.scope? = some p.identity := by
  cases h with
  | port ht => exact congrArg some (ht.scope_eq hp)
  | step hh => exact congrArg some (hp _ hh)

/-- A terminal that the scope has issued, if it carries its identity, is a destination if it was
    issued as one. -/
theorem takes_iff (hp : p.Owns) (ht : t.scope = p.identity → p.Issues t) :
    p.Takes t ↔ ∃ d, t.destination? p.identity = some d := by
  constructor
  · intro htakes
    cases htakes with
    | stepInlet hh key ht =>
      obtain ⟨port, rfl⟩ := eq_of_handle_inlet ht
      exact ⟨.stepInlet port, if_pos (hp _ hh)⟩
  · rintro ⟨d, hd⟩
    rw [Terminal.destination?] at hd
    split at hd
    · next hscope =>
      cases ht hscope with
      | stepInlet hh key ht => exact .stepInlet hh key ht
      | inlet key ht =>
        obtain ⟨i, rfl⟩ := eq_of_scope_inlet ht
        cases hd
      | stepOutlet hh key ht =>
        obtain ⟨port, rfl⟩ := eq_of_handle_outlet ht
        cases hd
    · cases hd

/-- An output that the scope has issued, if it carries its identity, is a source if it was issued
    as one. -/
theorem feeds_iff (hp : p.Owns) (ho : output.scope? = some p.identity → p.IssuesOutput output) :
    p.Feeds output ↔ ∃ source, output.source? p.identity = some source := by
  constructor
  · intro hfeeds
    cases hfeeds with
    | const v => exact ⟨.const v, rfl⟩
    | inlet key ht =>
      obtain ⟨i, rfl⟩ := eq_of_scope_inlet ht
      exact ⟨.inlet i, if_pos rfl⟩
    | stepOutlet hh key ht =>
      obtain ⟨port, rfl⟩ := eq_of_handle_outlet ht
      exact ⟨.stepOutlet port, if_pos (hp _ hh)⟩
    | step hh hone => exact ⟨_, if_pos ⟨hp _ hh, hone⟩⟩
  · rintro ⟨source, hs⟩
    cases output with
    | const v => exact .const v
    | port t =>
      change t.source? p.identity = some source at hs
      rw [Terminal.source?] at hs
      split at hs
      · next hscope =>
        cases ho (congrArg some hscope) with
        | port ht =>
          cases ht with
          | inlet key ht => exact .inlet key ht
          | stepOutlet hh key ht => exact .stepOutlet hh key ht
          | stepInlet hh key ht =>
            obtain ⟨port, rfl⟩ := eq_of_handle_inlet ht
            cases hs
      · cases hs
    | step h =>
      rw [Output.source?] at hs
      split at hs
      · next hstep =>
        cases ho (congrArg some hstep.1) with
        | step hh => exact .step hh hstep.2
      · cases hs

end Site

/-! ## Several scopes -/

/-- Scopes, in the order in which they were opened. A scope that is left stays among them: it is
    not called any more. -/
abbrev Sites : Type := List Site

/-- What can be done with several scopes. -/
inductive Operation where
  /-- A scope is opened for an algorithm. -/
  | start (identity : Identity) (algorithm : Action)
  /-- A call to a scope, which takes any handles. -/
  | call (i : Nat) (c : Call)

/-- The call that is made to a scope. -/
def Operation.to? (j : Nat) : Operation → Option Call
  | start .. => none
  | call i c => if i = j then some c else none

namespace Sites

/-- An operation. -/
def perform (sites : Sites) : Operation → Sites
  | .start identity algorithm => sites ++ [.start identity algorithm]
  | .call i c => sites.modify i (·.perform c)

/-- Operations one after the other. -/
def after (sites : Sites) (operations : List Operation) : Sites := operations.foldl perform sites

/-- The outputs that can be had: literals, and what the scopes have issued. -/
def Offers (sites : Sites) (output : Output) : Prop :=
  (∃ v, output = .const v) ∨ ∃ q ∈ sites, q.IssuesOutput output

variable {sites : Sites} {p q : Site} {i j : Nat}

/-- An operation on a scope does not touch the others. -/
theorem getElem?_perform (hp : sites[j]? = some p) (o : Operation) :
    (sites.perform o)[j]? = some (p.after (o.to? j).toList) := by
  cases o with
  | start identity algorithm =>
    exact (List.getElem?_append_left (List.getElem?_eq_some_iff.1 hp).1).trans hp
  | call i c =>
    show (sites.modify i _)[j]? = _
    rw [List.getElem?_modify, hp, Operation.to?]
    by_cases h : i = j
    · simp only [h, if_true]
      rfl
    · simp only [h, if_false]
      rfl

/-- Whatever is done, a scope comes to what the calls to it make of it. -/
theorem getElem?_after (hp : sites[j]? = some p) (operations : List Operation) :
    (sites.after operations)[j]? = some (p.after (operations.filterMap (Operation.to? j))) := by
  induction operations generalizing sites p with
  | nil => exact hp
  | cons o rest ih =>
    show ((sites.perform o).after rest)[j]? = _
    rw [ih (getElem?_perform hp o), List.filterMap_cons]
    cases o.to? j <;> rfl

/-- The handles of all scopes carry the identities of these. -/
theorem owns_perform (h : ∀ p ∈ sites, p.Owns) (o : Operation) : ∀ p ∈ sites.perform o, p.Owns := by
  intro p hp
  cases o with
  | start identity algorithm =>
    rcases List.mem_append.1 hp with hp | hp
    · exact h p hp
    · obtain rfl := List.mem_singleton.1 hp
      exact Site.owns_start identity algorithm
  | call i c =>
    obtain ⟨j, hj⟩ := List.mem_iff_getElem?.1 hp
    change (sites.modify i _)[j]? = _ at hj
    rw [List.getElem?_modify] at hj
    obtain ⟨q, hq, rfl⟩ := Option.map_eq_some_iff.1 hj
    have howns := h q (List.mem_of_getElem? hq)
    split
    · exact howns.perform c
    · exact howns

theorem owns_after (h : ∀ p ∈ sites, p.Owns) (operations : List Operation) :
    ∀ p ∈ sites.after operations, p.Owns := by
  induction operations generalizing sites with
  | nil => exact h
  | cons o rest ih => exact ih (owns_perform h o)

section

variable (howns : ∀ p ∈ sites, p.Owns) (hdistinct : (sites.map Site.identity).Nodup)
  {source : Output} {destination : Terminal}

include howns hdistinct

/-- An output that carries the identity of a scope was issued by it. -/
theorem issuesOutput_of_scope? (hp : p ∈ sites) (ho : sites.Offers source)
    (hscope : source.scope? = some p.identity) : p.IssuesOutput source := by
  rcases ho with ⟨v, rfl⟩ | ⟨q, hq, hissues⟩
  · cases hscope
  · have hidentity : q.identity = p.identity :=
      Option.some.inj ((hissues.scope?_eq (howns q hq)).symm.trans hscope)
    exact List.inj_on_of_nodup_map hdistinct hq hp hidentity ▸ hissues

/-- What another scope has issued does not carry the identity of a scope. -/
theorem scope?_ne (hp : sites[i]? = some p) (hq : sites[j]? = some q) (hne : j ≠ i)
    (hissues : q.IssuesOutput source) : source.scope? ≠ some p.identity := by
  intro hscope
  have hidentity : q.identity = p.identity :=
    Option.some.inj ((hissues.scope?_eq (howns q (List.mem_of_getElem? hq))).symm.trans hscope)
  have hi : (sites.map Site.identity)[i]? = some p.identity := by rw [List.getElem?_map, hp]; rfl
  have hj : (sites.map Site.identity)[j]? = some p.identity := by
    rw [List.getElem?_map, hq, ← hidentity]
    rfl
  exact hne ((List.getElem?_inj (List.getElem?_eq_some_iff.1 hj).1 hdistinct).1 (hj.trans hi.symm))

end

end Sites

/-- A call that changes nothing in its scope and issues nothing changes nothing at all. -/
theorem Sites.perform_of_eq {sites : Sites} {p : Site} {i : Nat} {c : Call}
    (hp : sites[i]? = some p) (h : p.perform c = p) : sites.perform (.call i c) = sites := by
  refine List.ext_getElem? fun j => ?_
  show (sites.modify i _)[j]? = _
  rw [List.getElem?_modify]
  by_cases hij : i = j
  · subst hij
    rw [hp]
    simp [h]
  · simp [hij]

/-- A bind puts a scope in the place of another one, or it is refused. -/
theorem Site.perform_bind (p : Site) (source : Output) (destination : Terminal) :
    p.perform (.bind source destination) =
      match p.scope.bind source destination with
      | .ok s => { p with scope := s }
      | .error _ => p := by
  show (⟨((Builder.bind source destination done).run p.scope).2.1, p.handles ++ []⟩ : Site) = _
  rw [run, List.append_nil]
  cases p.scope.bind source destination <;> rfl

/-- A program leaves a scope as its calls do. -/
theorem Makes.scope_after {α : Type} {x : Builder α} {p : Site} {calls : List Call}
    (h : x.Makes p.scope calls) : (p.after calls).scope = (x.run p.scope).2.1 := by
  generalize hs : p.scope = s at h
  induction h generalizing p with
  | done => exact hs
  | inspect _ ih => exact ih hs
  | @call c next s calls _ ih =>
    subst hs
    rw [run_bind]
    exact ih (p := p.perform c) rfl

end Builder

open Builder in
/-- Scopes with distinct identities, after any operations on them. A scope binds a source to a
    destination, be they literals or handles that any scope has issued, exactly if the source is
    one of its own that feeds, and the destination one of its own that takes. Then the bind is all
    that changes. Otherwise nothing changes, and the error is the fault of the source, or that of
    the destination if the source feeds; a handle of another scope is an invalid binding, whatever
    it denotes there. What is done later leaves the scope to what the calls to it make of it; so a
    program leaves it as if there were no other scopes. -/
theorem handles_keep_to_their_scope (operations : List Operation)
    (hdistinct : ((Sites.after [] operations).map Site.identity).Nodup) {i : Nat} {p : Site}
    (hp : (Sites.after [] operations)[i]? = some p) :
    let sites := Sites.after [] operations
    (∀ source destination, sites.Offers source → sites.Offers (.port destination) →
      ((∃ s, p.scope.bind source destination = .ok s) ↔ p.Feeds source ∧ p.Takes destination) ∧
      (∀ s, p.scope.bind source destination = .ok s →
        (sites.perform (.call i (.bind source destination)))[i]? = some { p with scope := s } ∧
        ∃ source' d, source.source? p.identity = some source' ∧
          destination.destination? p.identity = some d ∧
          s = { p.scope with binds := p.scope.binds.insert d source' }) ∧
      (∀ e, p.scope.bind source destination = .error e →
        sites.perform (.call i (.bind source destination)) = sites) ∧
      (∀ e, p.scope.bind source destination = .error e ↔
        source.Fault p.identity p.code e ∨
          p.Feeds source ∧ destination.Fault p.identity p.code e) ∧
      ∀ j q, sites[j]? = some q → j ≠ i →
        (q.IssuesOutput source → p.scope.bind source destination =
          .error (.invalidBinding p.code "port belongs to another algorithm")) ∧
        (p.Feeds source → q.Issues destination → p.scope.bind source destination =
          .error (.invalidBinding p.code "port belongs to another algorithm"))) ∧
    ∀ later,
      let calls := later.filterMap (Operation.to? i)
      (sites.after later)[i]? = some (p.after calls) ∧
      ∀ (α : Type) (x : Builder α), x.Makes p.scope calls →
        (p.after calls).scope = (x.run p.scope).2.1 := by
  intro sites
  have howns : ∀ q ∈ sites, q.Owns :=
    Sites.owns_after (fun _ hq => absurd hq List.not_mem_nil) operations
  have hmem : p ∈ sites := List.mem_of_getElem? hp
  refine ⟨fun source destination hsource hdestination => ?_, fun later =>
    ⟨Sites.getElem?_after hp later, fun α x h => h.scope_after⟩⟩
  have hfeeds : p.Feeds source ↔ ∃ source', source.source? p.scope.identity = some source' :=
    Site.feeds_iff (howns p hmem) (Sites.issuesOutput_of_scope? howns hdistinct hmem hsource)
  have htakes : p.Takes destination ↔ ∃ d, destination.destination? p.scope.identity = some d := by
    refine Site.takes_iff (howns p hmem) fun hscope => ?_
    cases Sites.issuesOutput_of_scope? howns hdistinct hmem hdestination (congrArg some hscope) with
    | port ht => exact ht
  have hfails (e : Error) : p.scope.bind source destination = .error e ↔
      source.Fault p.identity p.code e ∨
        p.Feeds source ∧ destination.Fault p.identity p.code e := by
    rw [hfeeds]
    exact Scope.bind_eq_error_iff
  refine ⟨?_, fun s hs => ⟨?_, ?_⟩, fun e he => ?_, hfails, fun j q hq hne => ⟨fun hissues => ?_,
    fun hsource hissues => ?_⟩⟩
  · rw [hfeeds, htakes]
    exact Scope.exists_bind_iff
  · rw [Sites.getElem?_perform hp, Operation.to?, if_pos rfl]
    show some (p.perform _) = _
    rw [p.perform_bind, hs]
  · exact Scope.bind_eq_ok_iff.1 hs
  · refine Sites.perform_of_eq hp ?_
    rw [p.perform_bind, he]
  · have hforeign := Sites.scope?_ne howns hdistinct hp hq hne hissues
    refine (hfails _).2 (.inl ?_)
    cases hissues with
    | port ht => exact .foreignPort fun h => hforeign (congrArg some h)
    | step hh => exact .foreignStep fun h => hforeign (congrArg some h)
  · have hforeign := Sites.scope?_ne howns hdistinct hp hq hne (.port hissues)
    exact (hfails _).2 (.inr ⟨hsource, .foreign fun h => hforeign (congrArg some h)⟩)

namespace Relay

open Builder

/-- An action with two outlets. -/
def fork : Action where
  code := "Fork"
  inlets := default
  outlets := ⟨[⟨"left", .any⟩, ⟨"right", .any⟩], by simp⟩
  graph := none

/-- Two scopes for the same algorithm are opened, and the same steps are placed in both, in
    turns. -/
def twins : List Operation :=
  [.start 0 shell, .call 0 (.register echo), .start 1 shell, .call 1 (.register echo),
    .call 0 (.register join), .call 1 (.register join), .call 1 (.register fork)]

/-- One of the two, with steps placed in it. -/
def twin (identity : Identity) (steps : List Action) : Site :=
  (Site.start identity shell).after (steps.map .register)

end Relay

open Builder in
/-- Of two scopes with the same steps the first one binds its own echo to its join, but no step of
    the second, be it an echo as well or one that could not be a source there either. -/
theorem handles_keep_to_their_scope_twins :
    let first := Relay.twin 0 [Relay.echo, Relay.join]
    let second := Relay.twin 1 [Relay.echo, Relay.join, Relay.fork]
    let left : Terminal := ⟨0, .stepInlet ⟨1, 1⟩⟩
    (∃ s, first.scope.bind (.step ⟨0, 0, Relay.echo⟩) left = .ok s) ∧
      (∀ h ∈ second.handles, first.scope.bind (.step h) left =
        .error (.invalidBinding "Relay" "port belongs to another algorithm")) ∧
      (Sites.after [] Relay.twins).perform (.call 0 (.bind (.step ⟨1, 0, Relay.echo⟩) left)) =
        Sites.after [] Relay.twins := by
  intro first second left
  have hdistinct : ((Sites.after [] Relay.twins).map Site.identity).Nodup := by decide
  obtain ⟨hbinds, -⟩ := handles_keep_to_their_scope Relay.twins hdistinct (i := 0) (p := first) rfl
  have hechoed : (⟨0, 0, Relay.echo⟩ : StepHandle) ∈ first.handles := List.mem_cons_self
  have hjoined : (⟨0, 1, Relay.join⟩ : StepHandle) ∈ first.handles :=
    List.mem_cons_of_mem _ List.mem_cons_self
  have hleft : (Sites.after [] Relay.twins).Offers (.port left) :=
    .inr ⟨first, List.mem_cons_self, .port (.stepInlet hjoined (.code "left") rfl)⟩
  have hoffers {h : StepHandle} (hh : h ∈ second.handles) :
      (Sites.after [] Relay.twins).Offers (.step h) :=
    .inr ⟨second, List.mem_cons_of_mem _ List.mem_cons_self, .step hh⟩
  have hforeign : ∀ h ∈ second.handles, first.scope.bind (.step h) left =
      .error (.invalidBinding "Relay" "port belongs to another algorithm") := fun h hh =>
    ((hbinds _ left (hoffers hh) hleft).2.2.2.2 1 second rfl (by decide)).1 (.step hh)
  refine ⟨?_, hforeign, ?_⟩
  · exact (hbinds _ left (.inr ⟨first, List.mem_cons_self, .step hechoed⟩) hleft).1.2
      ⟨.step hechoed rfl, .stepInlet hjoined (.code "left") rfl⟩
  · have hechoed' : ⟨1, 0, Relay.echo⟩ ∈ second.handles := List.mem_cons_self
    exact (hbinds _ left (hoffers hechoed') hleft).2.2.1 _ (hforeign _ hechoed')

end Dataflow
