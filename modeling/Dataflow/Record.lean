import Dataflow.Value

/-!
# Records

Values by name, in order: the inputs and the outputs of an evaluation and the
arguments of a host function. The accessors read an argument in the shape that a
host function needs, and say what is wrong with it otherwise.
-/

namespace Dataflow

/-- Values by name, in order. -/
abbrev Record := OrderedMap String Value

namespace Record

/-- Why an argument cannot be read. -/
inductive AccessError where
  /-- There is no value under the name. -/
  | missing (name : String)
  /-- The value has another shape. -/
  | wrongShape (name expected : String)

/-- The text of the reason. -/
def AccessError.message : AccessError → String
  | .missing name => s!"argument `{name}` was not supplied"
  | .wrongShape name expected => s!"argument `{name}` is not {expected}"

/-- The value under a name. -/
def value (r : Record) (name : String) : Except AccessError Value :=
  match r.get? name with
  | some v => .ok v
  | none => .error (.missing name)

/-- The value under a name as `read` gives it; `expected` says what it should be. -/
def valueAs {α : Type} (r : Record) (name expected : String) (read : Value → Option α) :
    Except AccessError α := do
  match read (← r.value name) with
  | some a => return a
  | none => throw (.wrongShape name expected)

/-- The number under a name. -/
def number (r : Record) (name : String) : Except AccessError Float :=
  r.valueAs name "a number" Value.float?

/-- The string under a name. -/
def string (r : Record) (name : String) : Except AccessError String :=
  r.valueAs name "a string" Value.string?

/-- The context under a name. -/
def context (r : Record) (name : String) : Except AccessError Context :=
  r.valueAs name "the context" Value.context?

/-- The content of the host object of a type under a name. -/
def content (r : Record) (typeName name : String) : Except AccessError Json :=
  r.valueAs name typeName (·.content? typeName)

/-- The record as a JSON object: a handle becomes its text. -/
def toJson (r : Record) : Json := .object (r.entries.map fun (name, v) => (name, v.toJson))

/-- Whether two records have equal values under the same names, in any order. -/
def sameValues (r s : Record) : Bool := r.same Value.same s

end Record

end Dataflow
