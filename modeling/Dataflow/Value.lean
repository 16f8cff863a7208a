import Dataflow.Context

/-!
# Values

What flows through an algorithm: JSON data, the execution context and host objects.

* `Value.same` is equality of values: of data by content, of handles by identity.
* `Value.text` is the text of a value: JSON for data, a description for a handle.
-/

namespace Dataflow

/-- A shared host object. -/
structure HostObject extends HostData where
  /-- The identity. -/
  identity : Identity

/-- The text of a host object for a developer. -/
def HostObject.tagged (o : HostObject) : String := "Object(" ++ o.typeName ++ ")"

/-- A value. -/
inductive Value where
  /-- Plain data. -/
  | json (j : Json)
  /-- The execution context. -/
  | context (c : Context)
  /-- A host object. -/
  | object (o : HostObject)

namespace Value

instance : Inhabited Value := ⟨json .null⟩

/-- Equality of values: of data by content, of handles by identity. -/
def same : Value → Value → Bool
  | json a, json b => a.same b
  | context c, context d => c.same d
  | object o, object p => o.identity == p.identity
  | _, _ => false

/-- The text of a value. -/
def text : Value → String
  | json j => j.text
  | context _ => "<context>"
  | object o => "<object " ++ o.typeName ++ ">"

/-- The data, if this is data. -/
def json? : Value → Option Json
  | json j => some j
  | _ => none

/-- The context, if this is one. -/
def context? : Value → Option Context
  | context c => some c
  | _ => none

/-- The host object, if this is one. -/
def object? : Value → Option HostObject
  | object o => some o
  | _ => none

/-- The number as a float, if this is one. -/
def float? (v : Value) : Option Float := do (← v.json?).float?

/-- The string, if this is one. -/
def string? (v : Value) : Option String := do (← v.json?).string?

/-- The content of a host object, if it has a type of this name. -/
def content? (v : Value) (typeName : String) : Option Json := do (← v.object?).as? typeName

/-- The value as data: a handle becomes its text. -/
def toJson : Value → Json
  | json j => j
  | v => .string v.text

/-- The value of a float: a number if it is finite, null otherwise. -/
def ofFloat (x : Float) : Value := json (.ofFloat x)

end Value

end Dataflow
