import Dataflow.Event

/-!
# Runs

A run is what a computation comes to: the events that it logged, in order, and its
result, a value or the error that ended it. Runs are chained (`Run.bind`): the second
starts only if the first succeeded, and its events follow those of the first.

* `Run.bind_of_ok` and `Run.bind_of_error`: what a chain logs and what it ends with.
* `Run.bind_assoc`: a chain of three may be cut after the first or after the second.
-/

namespace Dataflow

/-- The events that a computation logged and its result. -/
structure Run (ε α : Type) where
  /-- The events, in order. -/
  events : List Event
  /-- The result. -/
  result : Except ε α

namespace Run

variable {ε δ α β γ : Type}

/-- The run that logs nothing and has a result. -/
def ofExcept (result : Except ε α) : Run ε α := ⟨[], result⟩

/-- The run that logs one event. -/
def log (e : Event) : Run ε Unit := ⟨[e], .ok ()⟩

/-- The run that logs nothing and fails. -/
def fail (e : ε) : Run ε α := ⟨[], .error e⟩

/-- One run after the other; the second starts only if the first succeeded. -/
def bind (x : Run ε α) (f : α → Run ε β) : Run ε β :=
  match x.result with
  | .ok a =>
    let y := f a
    ⟨x.events ++ y.events, y.result⟩
  | .error e => ⟨x.events, .error e⟩

instance : Monad (Run ε) where
  pure a := ⟨[], .ok a⟩
  bind := bind

/-- The run with another error. -/
def mapError (f : ε → δ) (x : Run ε α) : Run δ α := ⟨x.events, x.result.mapError f⟩

theorem bind_eq (x : Run ε α) (f : α → Run ε β) : x >>= f = x.bind f := rfl

theorem bind_of_ok {x : Run ε α} {a : α} (h : x.result = .ok a) (f : α → Run ε β) :
    x.bind f = ⟨x.events ++ (f a).events, (f a).result⟩ := by
  rw [bind, h]

theorem bind_of_error {x : Run ε α} {e : ε} (h : x.result = .error e) (f : α → Run ε β) :
    x.bind f = ⟨x.events, .error e⟩ := by
  rw [bind, h]

theorem bind_pure (x : Run ε α) : x.bind (⟨[], .ok ·⟩) = x := by
  cases hx : x.result with
  | error e => rw [bind_of_error hx, ← hx]
  | ok a => rw [bind_of_ok hx, List.append_nil, ← hx]

theorem pure_bind (a : α) (f : α → Run ε β) : (⟨[], .ok a⟩ : Run ε α).bind f = f a := by
  rw [bind_of_ok rfl, List.nil_append]

theorem bind_assoc (x : Run ε α) (f : α → Run ε β) (g : β → Run ε γ) :
    (x.bind f).bind g = x.bind fun a => (f a).bind g := by
  cases hx : x.result with
  | error e => rw [bind_of_error hx, bind_of_error hx, bind_of_error rfl]
  | ok a =>
    rw [bind_of_ok hx, bind_of_ok hx]
    cases hf : (f a).result with
    | error e => rw [bind_of_error rfl, bind_of_error hf]
    | ok b => rw [bind_of_ok rfl, bind_of_ok hf, List.append_assoc]

/-- Runs are chained like any computation: doing nothing changes nothing, and chains
    may be cut anywhere. -/
instance : LawfulMonad (Run ε) :=
  .mk' (Run ε) bind_pure (fun a f => pure_bind a f) (fun x f g => bind_assoc x f g)

end Run

end Dataflow
