import Dataflow.Json.Basic
import Dataflow.Json.Written

/-!
# Reading JSON data

What the parts of a JSON text stand for.

* An integer literal is an integer if it fits 64 bits, with or without a sign; the
  literal `-0`, wider integers and every other literal are floats.
* A float is read from the leading digits that fit an unsigned 64-bit word, as a
  float, times or divided by a power of ten; it must not overflow.
* Two code units that form a surrogate pair stand for one character; a lone
  surrogate stands for none.
* The last of several members of one name gives its value, the first its place.
* A text with arrays and objects nested to a depth of 128 is refused.
-/

namespace Dataflow.Json

/-! ## Numbers -/

/-- Appends digits to a word while the result fits 64 bits; gives the word and the
    digits left over. -/
def fitDigits (word : Nat) : List Nat → Nat × List Nat
  | [] => (word, [])
  | d :: ds => if 10 * word + d < powTwo 64 then fitDigits (10 * word + d) ds else (word, d :: ds)

/-- The float `x` times a power of ten, unless it overflows. A power beyond the
    finite ones is divided by in several steps. -/
def scale? (x : Float) (exponent : Int) : Option Float :=
  if exponent.natAbs ≤ 308 then
    let power := Binary64.ofInt (powTen exponent.natAbs)
    if exponent < 0 then some (x / power)
    else if (x * power).isInf then none else some (x * power)
  else if x == 0 then some x
  else if 0 < exponent then none
  else scale? (x / Binary64.ofInt (powTen 308)) (exponent + 308)
termination_by exponent.natAbs
decreasing_by omega

/-- The number that a literal stands for. -/
def Literal.number? (l : Literal) : Option Number :=
  let (word, dropped) := fitDigits 0 l.whole
  let signed (x : Float) : Number := .float (if l.negative then -x else x)
  match l.fraction, l.exponent, dropped with
  | none, none, [] =>
    if !l.negative then some (.int word)
    else if word = 0 ∨ powTwo 63 < word then some (signed (Binary64.ofInt word))
    else some (.int (-word))
  | fraction, exponent, _ =>
    let fraction := fraction.getD []
    let (word, left) := fitDigits word fraction
    let taken : Int := fraction.length - left.length
    (scale? (Binary64.ofInt word) (dropped.length - taken + exponent.getD 0)).map signed

/-! ## Strings -/

/-- The character that a surrogate pair stands for. -/
def pairChar (high low : Nat) : Char :=
  Char.ofNat (0x10000 + (high - 0xD800) * 0x400 + (low - 0xDC00))

/-- The characters that the pieces of a string stand for. -/
def decodePieces : List Piece → Option (List Char)
  | [] => some []
  | .char c :: rest => (decodePieces rest).map (c :: ·)
  | .unit high :: .unit low :: rest =>
    if 0xD800 ≤ high ∧ high < 0xDC00 then
      if 0xDC00 ≤ low ∧ low < 0xE000 then (decodePieces rest).map (pairChar high low :: ·)
      else none
    else if 0xDC00 ≤ high ∧ high < 0xE000 then none
    else (decodePieces (.unit low :: rest)).map (Char.ofNat high :: ·)
  | .unit u :: rest =>
    if 0xD800 ≤ u ∧ u < 0xE000 then none else (decodePieces rest).map (Char.ofNat u :: ·)

namespace Written

/-- The text that the pieces of a string stand for. -/
def pieces? (pieces : List Piece) : Option String := (decodePieces pieces).map String.ofList

/-! ## Values -/

mutual

/-- The value that a written value stands for. -/
def value? : Written → Option Json
  | null => some .null
  | bool b => some (.bool b)
  | number l => l.number?.map .number
  | string pieces => (pieces? pieces).map .string
  | array items => (valueItems? items).map .array
  | object members =>
    (valueMembers? members).map fun pairs => .object (OrderedMap.ofList pairs).entries

/-- The values of the items. -/
def valueItems? : List Written → Option (List Json)
  | [] => some []
  | x :: xs => do return (← x.value?) :: (← valueItems? xs)

/-- The names and values of the members, repeated names included. -/
def valueMembers? : List (List Piece × Written) → Option (List (String × Json))
  | [] => some []
  | (name, x) :: ms => do return (← pieces? name, ← x.value?) :: (← valueMembers? ms)

end

/-! ## Parts of a known shape -/

/-- The string, if this is one. -/
def string? : Written → Option String
  | string pieces => pieces? pieces
  | _ => none

/-- The truth value, if this is one. -/
def bool? : Written → Option Bool
  | bool b => some b
  | _ => none

/-- The name of a choice: a string, or the name of the only member of an object,
    which is null. -/
def choice? : Written → Option String
  | string pieces => pieces? pieces
  | object [(name, null)] => pieces? name
  | _ => none

/-- Whether this is an array. -/
def isArray : Written → Bool
  | array _ => true
  | _ => false

/-- The members with a known name. Every name must stand for a text and no known
    one may be repeated; the members of other names are not looked at. -/
def knownMembers? (known : List String) :
    List (List Piece × Written) → Option (List (String × Written))
  | [] => some []
  | (name, x) :: rest => do
    let name ← pieces? name
    let found ← knownMembers? known rest
    if name ∉ known then some found
    else if name ∈ found.map Prod.fst then none
    else some ((name, x) :: found)

/-- The fields of a record in the order of their names: the members of an object,
    or the items of an array by their position. -/
def fields? (names : List String) : Written → Option (List (Option Written))
  | object members => do
    let found ← knownMembers? names members
    return names.map (found.lookup ·)
  | array items =>
    if items.length ≤ names.length then
      some (items.map some ++ List.replicate (names.length - items.length) none)
    else none
  | _ => none

end Written

/-- The value that a whole text stands for, to any depth of nesting. -/
def readDeep? (s : String) : Option Json := do (← Written.read? s.toList).value?

/-- The value that a whole text stands for, nested to less than 128 levels. -/
def read? (s : String) : Option Json := do
  let x ← Written.read? s.toList
  if x.depth < 128 then x.value? else none

end Dataflow.Json
