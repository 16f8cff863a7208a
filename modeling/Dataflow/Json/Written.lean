import Dataflow.Decimal.Digits

/-!
# JSON as written

A JSON text taken apart by the grammar alone: a number is still the digits it was
written with and a string may still hold code units of no character. What a part of
a text stands for, if anything, is decided later (`Dataflow.Json.Reader`), and a part
that nobody asks for need not stand for anything.

* `Written.read?` takes a whole text apart.
* `Written.depth` is the depth to which its arrays and objects are nested.
-/

namespace Dataflow.Json

/-- A number as it is written. -/
structure Literal where
  /-- Whether it starts with a minus sign. -/
  negative : Bool
  /-- The digits before the point. -/
  whole : List Nat
  /-- The digits after the point, if there is one. -/
  fraction : Option (List Nat)
  /-- The exponent, if there is one. -/
  exponent : Option Int

/-- A part of a string as it is written. -/
inductive Piece where
  /-- A character, written as itself or by an escape of one letter. -/
  | char (c : Char)
  /-- A code unit, written by its four hexadecimal digits. -/
  | unit (u : Nat)

/-- A value as it is written. -/
inductive Written where
  /-- The word `null`. -/
  | null
  /-- The word `true` or the word `false`. -/
  | bool (b : Bool)
  /-- A number. -/
  | number (l : Literal)
  /-- A string. -/
  | string (pieces : List Piece)
  /-- An array. -/
  | array (items : List Written)
  /-- An object, its members in order, repeated names included. -/
  | object (members : List (List Piece × Written))

namespace Written

mutual

/-- How deep arrays and objects are nested. -/
def depth : Written → Nat
  | array items => depthItems items + 1
  | object members => depthMembers members + 1
  | _ => 0

/-- The greatest depth of the items. -/
def depthItems : List Written → Nat
  | [] => 0
  | x :: xs => max x.depth (depthItems xs)

/-- The greatest depth of the members. -/
def depthMembers : List (List Piece × Written) → Nat
  | [] => 0
  | (_, x) :: ms => max x.depth (depthMembers ms)

end

/-! ## Taking a text apart -/

/-- Whether a character may stand between the parts of a text. -/
def isSpace (c : Char) : Bool := c == ' ' || c == '\n' || c == '\t' || c == '\r'

/-- What follows the space at the front of a text. -/
def skipSpace (cs : List Char) : List Char := cs.dropWhile isSpace

/-- The value of a hexadecimal digit. -/
def hexDigit? (c : Char) : Option Nat :=
  if '0' ≤ c ∧ c ≤ '9' then some (c.toNat - '0'.toNat)
  else if 'a' ≤ c ∧ c ≤ 'f' then some (c.toNat - 'a'.toNat + 10)
  else if 'A' ≤ c ∧ c ≤ 'F' then some (c.toNat - 'A'.toNat + 10)
  else none

/-- The number that four hexadecimal digits stand for. -/
def hexUnit? (a b c d : Char) : Option Nat := do
  return (((← hexDigit? a) * 16 + (← hexDigit? b)) * 16 + (← hexDigit? c)) * 16 + (← hexDigit? d)

/-- The character that an escape of one letter stands for. -/
def escaped? (c : Char) : Option Char :=
  match c with
  | '"' => some '"'
  | '\\' => some '\\'
  | '/' => some '/'
  | 'b' => some '\x08'
  | 'f' => some '\x0c'
  | 'n' => some '\n'
  | 'r' => some '\r'
  | 't' => some '\t'
  | _ => none

/-- The pieces of a string up to its closing quote, and what follows it. -/
def takeString : List Char → Option (List Piece × List Char)
  | [] => none
  | '"' :: rest => some ([], rest)
  | '\\' :: 'u' :: a :: b :: c :: d :: rest =>
    match hexUnit? a b c d, takeString rest with
    | some u, some (pieces, rest) => some (.unit u :: pieces, rest)
    | _, _ => none
  | '\\' :: c :: rest =>
    match escaped? c, takeString rest with
    | some c, some (pieces, rest) => some (.char c :: pieces, rest)
    | _, _ => none
  | c :: rest =>
    if c.toNat < 0x20 then none
    else (takeString rest).map fun (pieces, rest) => (.char c :: pieces, rest)

/-- The digits after a point, if the text starts with one. -/
def takeFraction (cs : List Char) : Option (Option (List Nat) × List Char) :=
  match cs with
  | '.' :: rest =>
    let (digits, rest) := Decimal.takeDigits rest
    if digits.isEmpty then none else some (some digits, rest)
  | _ => some (none, cs)

/-- The exponent, if the text starts with one. -/
def takeExponent (cs : List Char) : Option (Option Int × List Char) :=
  match cs with
  | [] => some (none, [])
  | e :: rest =>
    if e = 'e' ∨ e = 'E' then
      let (negative, rest) :=
        match rest with
        | '+' :: rest => (false, rest)
        | '-' :: rest => (true, rest)
        | _ => (false, rest)
      let (digits, rest) := Decimal.takeDigits rest
      let size : Int := Decimal.value digits
      if digits.isEmpty then none else some (some (if negative then -size else size), rest)
    else some (none, e :: rest)

/-- The number at the front of a text: no zero stands before another digit. -/
def takeNumber (cs : List Char) : Option (Literal × List Char) := do
  let (negative, rest) :=
    match cs with
    | '-' :: rest => (true, rest)
    | _ => (false, cs)
  let (whole, rest) := Decimal.takeDigits rest
  if whole.isEmpty ∨ (whole.head? = some 0 ∧ whole.length ≠ 1) then none
  else
    let (fraction, rest) ← takeFraction rest
    let (exponent, rest) ← takeExponent rest
    return (⟨negative, whole, fraction, exponent⟩, rest)

mutual

/-- The value at the front of a text. -/
def takeValue : Nat → List Char → Option (Written × List Char)
  | 0, _ => none
  | fuel + 1, cs =>
    match skipSpace cs with
    | 'n' :: 'u' :: 'l' :: 'l' :: rest => some (null, rest)
    | 't' :: 'r' :: 'u' :: 'e' :: rest => some (bool true, rest)
    | 'f' :: 'a' :: 'l' :: 's' :: 'e' :: rest => some (bool false, rest)
    | '"' :: rest => (takeString rest).map fun (pieces, rest) => (string pieces, rest)
    | '[' :: rest =>
      match skipSpace rest with
      | ']' :: rest => some (array [], rest)
      | rest => (takeItems fuel rest).map fun (items, rest) => (array items, rest)
    | '\x7b' :: rest =>
      match skipSpace rest with
      | '\x7d' :: rest => some (object [], rest)
      | rest => (takeMembers fuel rest).map fun (members, rest) => (object members, rest)
    | rest => (takeNumber rest).map fun (literal, rest) => (number literal, rest)

/-- The items up to the closing bracket of an array. -/
def takeItems : Nat → List Char → Option (List Written × List Char)
  | 0, _ => none
  | fuel + 1, cs => do
    let (x, rest) ← takeValue fuel cs
    match skipSpace rest with
    | ',' :: rest =>
      let (xs, rest) ← takeItems fuel rest
      return (x :: xs, rest)
    | ']' :: rest => return ([x], rest)
    | _ => none

/-- The members up to the closing brace of an object. -/
def takeMembers : Nat → List Char → Option (List (List Piece × Written) × List Char)
  | 0, _ => none
  | fuel + 1, cs => do
    let '"' :: rest := skipSpace cs | none
    let (name, rest) ← takeString rest
    let ':' :: rest := skipSpace rest | none
    let (x, rest) ← takeValue fuel rest
    match skipSpace rest with
    | ',' :: rest =>
      let (ms, rest) ← takeMembers fuel rest
      return ((name, x) :: ms, rest)
    | '\x7d' :: rest => return ([(name, x)], rest)
    | _ => none

end

/-- The value that a whole text is, if it is one. Every character opens at most two
    of the nested calls. -/
def read? (cs : List Char) : Option Written := do
  let (x, rest) ← takeValue (2 * cs.length + 2) cs
  if (skipSpace rest).isEmpty then some x else none

end Written

end Dataflow.Json
