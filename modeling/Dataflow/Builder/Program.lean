import Dataflow.Builder.Scope
import Dataflow.Run

/-!
# Builder programs

What a builder does inside a scope, as data: it looks at the scope, places steps and
binds ports, and goes on from the answer to each of these as it likes. A call that
fails answers with its error, and the program may go on after it. A program cannot
change a scope in any other way.

* `Builder.run` runs a program in a scope.
* `Builder.run_bind`: of two programs one after the other, the second runs in the scope
  that the first leaves, and its events follow.
* `Builder.invoke` places an action and binds its arguments, those without a name by
  index and the others by code, up to the first that fails.
-/

namespace Dataflow

/-- A builder program that ends with an answer. -/
inductive Builder (α : Type) where
  /-- The end. -/
  | done (a : α)
  /-- Looks at the scope. -/
  | inspect (next : Scope → Builder α)
  /-- Places an action as the next step. -/
  | register (a : Action) (next : StepHandle → Builder α)
  /-- Binds a source to a destination. -/
  | bind (source : Output) (destination : Terminal) (next : Except Error Unit → Builder α)

namespace Builder

variable {α β : Type}

/-- The program followed by the one that its answer gives. -/
def andThen (x : Builder α) (f : α → Builder β) : Builder β :=
  match x with
  | done a => f a
  | inspect next => inspect fun s => (next s).andThen f
  | register a next => register a fun h => (next h).andThen f
  | bind source destination next => bind source destination fun r => (next r).andThen f

instance : Monad Builder where
  pure := done
  bind := andThen

/-- Runs a program in a scope: its answer, the scope it leaves and the events. -/
def run : Builder α → Scope → α × Scope × List Event
  | done a, s => (a, s, [])
  | inspect next, s => (next s).run s
  | register a next, s =>
    let (h, s) := s.register a
    let (answer, left, events) := (next h).run s
    (answer, left, .stepRegistered s.algorithm.code h.ordinal a.code :: events)
  | bind source destination next, s =>
    match s.bind source destination with
    | .ok s => (next (.ok ())).run s
    | .error e => (next (.error e)).run s

theorem done_bind (a : α) (f : α → Builder β) : done a >>= f = f a := rfl

theorem bind_done (x : Builder α) : x >>= done = x := by
  show x.andThen done = x
  induction x with
  | done a => rfl
  | inspect next ih => exact congrArg inspect (funext ih)
  | register a next ih => exact congrArg (register a) (funext ih)
  | bind source destination next ih => exact congrArg (bind source destination) (funext ih)

theorem bind_bind {γ : Type} (x : Builder α) (f : α → Builder β) (g : β → Builder γ) :
    x >>= f >>= g = x >>= fun a => f a >>= g := by
  show (x.andThen f).andThen g = x.andThen fun a => (f a).andThen g
  induction x with
  | done a => rfl
  | inspect next ih => exact congrArg inspect (funext ih)
  | register a next ih => exact congrArg (register a) (funext ih)
  | bind source destination next ih => exact congrArg (bind source destination) (funext ih)

/-- Programs are chained like any computation. -/
instance : LawfulMonad Builder := .mk' Builder bind_done done_bind bind_bind

/-- A chain of programs runs the second in the scope that the first leaves. -/
theorem run_bind (x : Builder α) (f : α → Builder β) (s : Scope) :
    (x >>= f).run s =
      let (a, left, events) := x.run s
      let (b, left, later) := (f a).run left
      (b, left, events ++ later) := by
  show (x.andThen f).run s = _
  induction x generalizing s with
  | done a => rfl
  | inspect next ih => exact ih s s
  | register a next ih =>
    simp only [andThen, run, ih, List.cons_append]
  | bind source destination next ih =>
    simp only [andThen, run]
    split <;> exact ih _ _

/-- A program that may end with an error. -/
abbrev Fallible (α : Type) : Type := ExceptT Error Builder α

/-- An inlet of the algorithm. -/
def inlet (key : PortKey) : Fallible Terminal :=
  ExceptT.mk (inspect fun s => done (s.inlet key))

/-- All inlets of the algorithm, in order. -/
def inlets : Fallible (List Terminal) := ExceptT.mk (inspect fun s => done (.ok s.inlets))

/-- Places an action as the next step. -/
def place (a : Action) : Fallible StepHandle :=
  ExceptT.mk (register a fun h => done (.ok h))

/-- Binds a source to a destination. -/
def connect (source : Output) (destination : Terminal) : Fallible Unit :=
  ExceptT.mk (bind source destination done)

/-- Binds outputs to the inlets of a step from an index on. -/
def bindPositional (h : StepHandle) (i : Nat) : List Output → Fallible Unit
  | [] => pure ()
  | output :: rest => do
    let destination ← ExceptT.mk (done (h.inlet (.index i)))
    connect output destination
    bindPositional h (i + 1) rest

/-- Binds outputs to the inlets of a step by code. -/
def bindNamed (h : StepHandle) : List (String × Output) → Fallible Unit
  | [] => pure ()
  | (name, output) :: rest => do
    let destination ← ExceptT.mk (done (h.inlet (.code name)))
    connect output destination
    bindNamed h rest

/-- Places an action as the next step and binds its arguments. -/
def invoke (a : Action) (positional : List Output) (named : List (String × Output)) :
    Fallible StepHandle := do
  let h ← place a
  bindPositional h 0 positional
  bindNamed h named
  return h

end Builder

end Dataflow
