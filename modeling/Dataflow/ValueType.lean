import Dataflow.Decimal.Float
import Dataflow.Record

/-!
# Value types

A value type has a code and a validator, which accepts a value, possibly coercing
it, or rejects it. There are three builtin types of data, and the *context type*
marks the ports that receive the execution context.

* `any` accepts every value unchanged.
* `numeric` accepts numbers, truth values as 0 or 1, and texts of finite numbers.
* `string` accepts strings; any other value becomes the empty string.
* `context` accepts a context unchanged and nothing else.
-/

namespace Dataflow

/-- A failure of host code, by its message. -/
structure Failure where
  /-- The message. -/
  message : String

/-- What a validator has against a value. -/
inductive Rejection where
  /-- The value is not admissible. -/
  | invalid (reason : String)
  /-- The validator itself failed. -/
  | unexpected (failure : Failure)

/-- The text of a rejection. -/
def Rejection.message : Rejection → String
  | .invalid reason => reason
  | .unexpected failure => failure.message

/-- A value type. -/
inductive ValueType where
  /-- A type with a code and a validator of its own. -/
  | custom (code : String) (validator : Value → Except Rejection Value)
  /-- The type of the ports that receive the execution context. -/
  | context

namespace ValueType

/-- The code of a type. -/
def code : ValueType → String
  | custom code _ => code
  | context => "Context"

/-- Whether this is the type of the ports that receive the context. -/
def isContext : ValueType → Bool
  | custom .. => false
  | context => true

/-- Accepts a value, possibly coerced, or rejects it. -/
def validate : ValueType → Value → Except Rejection Value
  | custom _ validator, v => validator v
  | context, .context c => .ok (.context c)
  | context, v => .error (.invalid s!"{v.text} is not the execution context")

/-- The type that accepts every value. -/
def any : ValueType := custom "Any" .ok

/-- The value of a numeric port. -/
def coerceNumber (v : Value) : Except Rejection Value :=
  match v with
  | .json (.number n) => .ok (.json (.number n))
  | .json (.bool b) => .ok (.json (.ofInt (if b then 1 else 0)))
  | .json (.string s) =>
    match Decimal.float? s with
    | some x => .ok (.json (.number (.float x)))
    | none => .error (.invalid s!"could not convert string to float: {Text.quoted s}")
  | v => .error (.invalid s!"{v.text} is not a number")

/-- The type of numbers. -/
def numeric : ValueType := custom "Numeric" coerceNumber

/-- The value of a string port. -/
def coerceString (v : Value) : Except Rejection Value :=
  match v with
  | .json (.string s) => .ok (.json (.string s))
  | _ => .ok (.json (.string ""))

/-- The type of strings. -/
def string : ValueType := custom "String" coerceString

/-- Types are told apart by their code and by whether they are the context type. -/
def same (t u : ValueType) : Bool := t.code == u.code && t.isContext == u.isContext

/-- The text of a type for a developer. -/
def tagged (t : ValueType) : String := s!"Type(code={t.code})"

end ValueType

end Dataflow
