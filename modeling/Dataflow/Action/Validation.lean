import Dataflow.Action

/-!
# Validation

A record of values passes through one side of an action when it has exactly the names
of the ports and the type of every port accepts its value. The names are looked at
first; then the values, in the order of the ports. What comes out has the names of
the ports in their order, each with the value that its type returned.
-/

namespace Dataflow.Action

/-- Checks that the names of a record are those of the ports. -/
def checkNames (a : Action) (direction : Direction) (values : Record) : Except Error Unit :=
  let names := (a.ports direction).names
  let unexpected := values.keys.filter (· ∉ names)
  let missing := names.filter (· ∉ values.keys)
  if unexpected.isEmpty && missing.isEmpty then .ok ()
  else .error (.mismatchedKeys a.code direction unexpected missing)

/-- The value that the type of a parameter returns, or the error that its rejection
    is. -/
def coerce (a : Action) (direction : Direction) (p : Parameter) (v : Value) :
    Except Error Value :=
  match p.type.validate v with
  | .ok w => .ok w
  | .error (.invalid reason) =>
    .error (.invalidType a.code direction p.name v.text p.type.code reason)
  | .error (.unexpected failure) => .error (.unexpected p.type.code failure)

/-- The entries for the parameters, each value as its type returns it; a parameter
    without a value has no entry. -/
def coerceAll (a : Action) (direction : Direction) (values : Record) :
    List Parameter → Except Error (List (String × Value))
  | [] => .ok []
  | p :: rest =>
    match values.get? p.name with
    | none => coerceAll a direction values rest
    | some v => do
      let w ← a.coerce direction p v
      let entries ← coerceAll a direction values rest
      return (p.name, w) :: entries

/-- Passes a record through one side of an action. -/
def validate (a : Action) (direction : Direction) (values : Record) : Except Error Record := do
  a.checkNames direction values
  let entries ← a.coerceAll direction values (a.ports direction).parameters
  return .ofList entries

end Dataflow.Action
