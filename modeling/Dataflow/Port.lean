import Dataflow.ValueType

/-!
# Ports

The ports of one side of an action: parameters with distinct names, in order. A port
is addressed by its code, which is the name of its parameter, or by its index.

* `Ports.ofParameters_error`: a list of parameters is refused for the earliest name
  that repeats an earlier one, and for nothing else.
-/

namespace Dataflow

/-- The direction of a port. -/
inductive Direction where
  /-- An input. -/
  | inward
  /-- An output. -/
  | outward
deriving DecidableEq

/-- The word for a direction. -/
def Direction.text : Direction → String
  | inward => "in"
  | outward => "out"

/-- A named and typed place for a value. -/
structure Parameter where
  /-- The name. -/
  name : String
  /-- The type of the values. -/
  type : ValueType

namespace Parameter

/-- The parameter that conventionally receives the context. -/
def context : Parameter := ⟨"context", .context⟩

/-- The text of a parameter. -/
def text (p : Parameter) : String := s!"{p.name}: {p.type.code}"

/-- Whether two parameters have the same name and the same type. -/
def same (p q : Parameter) : Bool := p.name == q.name && p.type.same q.type

end Parameter

/-- How a port is addressed. -/
inductive PortKey where
  /-- By its code. -/
  | code (name : String)
  /-- By its index, from zero. -/
  | index (i : Nat)

/-- The text of an address. -/
def PortKey.text : PortKey → String
  | .code name => s!"code `{name}`"
  | .index i => s!"index `{i}`"

/-- The earliest name that repeats an earlier one, given names that are already
    taken. -/
def firstRepeat? (taken : List String) : List String → Option String
  | [] => none
  | name :: rest => if name ∈ taken then some name else firstRepeat? (name :: taken) rest

/-- There is no repeated name exactly when the names are distinct and not taken. -/
theorem firstRepeat?_eq_none_iff {taken names : List String} :
    firstRepeat? taken names = none ↔ names.Nodup ∧ ∀ name ∈ names, name ∉ taken := by
  induction names generalizing taken with
  | nil => simp [firstRepeat?]
  | cons name rest ih =>
    rw [firstRepeat?]
    by_cases h : name ∈ taken
    · simp [h]
    · simp only [h, if_false, ih, List.nodup_cons, List.mem_cons, forall_eq_or_imp, not_or,
        not_false_eq_true, true_and]
      constructor
      · rintro ⟨hnd, hfree⟩
        exact ⟨⟨fun hm => (hfree name hm).1 rfl, hnd⟩, fun n hn => (hfree n hn).2⟩
      · rintro ⟨⟨hnot, hnd⟩, hfree⟩
        exact ⟨hnd, fun n hn => ⟨fun e => hnot (e ▸ hn), hfree n hn⟩⟩

/-- The ports of one side of an action. -/
structure Ports where
  /-- The parameters, in order. -/
  parameters : List Parameter
  /-- No name occurs twice. -/
  nodup : (parameters.map Parameter.name).Nodup

namespace Ports

instance : Inhabited Ports := ⟨⟨[], by simp⟩⟩

/-- The ports for a list of parameters, or the earliest name that is repeated. -/
def ofParameters (parameters : List Parameter) : Except String Ports :=
  match h : firstRepeat? [] (parameters.map Parameter.name) with
  | none => .ok ⟨parameters, (firstRepeat?_eq_none_iff.1 h).1⟩
  | some name => .error name

/-- The names, in order. -/
def names (ports : Ports) : List String := ports.parameters.map Parameter.name

/-- The number of ports. -/
def size (ports : Ports) : Nat := ports.parameters.length

/-- The index of the port under an address. -/
def indexOf? (ports : Ports) : PortKey → Option Nat
  | .code name => ports.parameters.findIdx? (·.name == name)
  | .index i => if i < ports.size then some i else none

/-- The index of the first port that receives the context. -/
def contextIndex? (ports : Ports) : Option Nat := ports.parameters.findIdx? (·.type.isContext)

theorem ofParameters_error {parameters : List Parameter} {name : String} :
    ofParameters parameters = .error name ↔
      firstRepeat? [] (parameters.map Parameter.name) = some name := by
  simp only [ofParameters]
  split <;> simp_all

end Ports

end Dataflow
