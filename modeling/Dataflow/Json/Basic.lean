import Dataflow.Binary64.Nearest
import Dataflow.OrderedMap

/-!
# JSON data

JSON values. A number is an integer or a float, and the two kinds are never equal;
the members of an object keep their order, which equality (`Json.same`) ignores.
-/

namespace Dataflow

/-- A JSON number. -/
inductive Number where
  /-- An integer; those that are read lie between `-2 ^ 63` and `2 ^ 64 - 1`. -/
  | int (n : Int)
  /-- A finite float. -/
  | float (x : Float)

/-- A JSON value. -/
inductive Json where
  /-- The null value. -/
  | null
  /-- A truth value. -/
  | bool (b : Bool)
  /-- A number. -/
  | number (n : Number)
  /-- A string. -/
  | string (s : String)
  /-- An array. -/
  | array (items : List Json)
  /-- An object, its members in order. -/
  | object (members : List (String × Json))

/-- Equality of numbers of one kind; the two zeros are equal floats. -/
def Number.same : Number → Number → Bool
  | .int m, .int n => m == n
  | .float x, .float y => x == y
  | _, _ => false

/-- The nearest float. -/
def Number.toFloat : Number → Float
  | .int n => Binary64.ofInt n
  | .float x => x

namespace Json

instance : Inhabited Json := ⟨null⟩

mutual

/-- Equality of values; the order of the members of an object is ignored. -/
def same : Json → Json → Bool
  | null, null => true
  | bool a, bool b => a == b
  | number m, number n => m.same n
  | string s, string t => s == t
  | array xs, array ys => sameItems xs ys
  | object ms, object ns => ms.length == ns.length && sameMembers ms ns
  | _, _ => false

/-- Equality of two lists of items. -/
def sameItems : List Json → List Json → Bool
  | [], [] => true
  | x :: xs, y :: ys => same x y && sameItems xs ys
  | _, _ => false

/-- Whether each of the members is equal to the one of the same name in `ns`. -/
def sameMembers : List (String × Json) → List (String × Json) → Bool
  | [], _ => true
  | (name, x) :: ms, ns =>
    (match ns.lookup name with
      | some y => same x y
      | none => false) && sameMembers ms ns

end

/-- The value of a float: a number if it is finite, null otherwise. -/
def ofFloat (x : Float) : Json := if x.isFinite then number (.float x) else null

/-- The integer `n` as a value. -/
def ofInt (n : Int) : Json := number (.int n)

/-- The string, if this is one. -/
def string? : Json → Option String
  | string s => some s
  | _ => none

/-- The number as a float, if this is one. -/
def float? : Json → Option Float
  | number n => some n.toFloat
  | _ => none

end Json

end Dataflow
