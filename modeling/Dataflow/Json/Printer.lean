import Dataflow.Binary64.Shortest
import Dataflow.Json.Basic

/-!
# The text of JSON data

The compact text of a value and its text over several lines.

A float has the fewest digits that are read back as the same number. It is written
with a point and at least one digit after it when its first digit stands between
`10 ^ (-5)` and `10 ^ 15`, with a signed exponent otherwise, so that the text of a
float is never the text of an integer.
-/

namespace Dataflow

/-- The text of the decimal `digits`, its first digit standing for
    `10 ^ exponent`. -/
def Binary64.Scientific.text (x : Binary64.Scientific) : List Char :=
  let shown := x.digits.map Decimal.digitChar
  if 0 ≤ x.exponent ∧ x.exponent < 16 then
    let point := x.exponent.toNat + 1
    let whole := shown.take point ++ List.replicate (point - shown.length) '0'
    let fraction := shown.drop point
    whole ++ '.' :: (if fraction.isEmpty then ['0'] else fraction)
  else if -5 ≤ x.exponent ∧ x.exponent < 0 then
    ['0', '.'] ++ List.replicate ((-x.exponent).toNat - 1) '0' ++ shown
  else
    let point := if shown.length ≤ 1 then [] else ['.']
    let sign := if x.exponent < 0 then '-' else '+'
    shown.take 1 ++ point ++ shown.drop 1 ++ 'e' :: sign :: Decimal.natText x.exponent.natAbs

/-- The text of a float; null if it is not finite. -/
def Binary64.text (x : Float) : List Char :=
  let bits := x.toBits.toNat
  let magnitude := bits % powTwo 63
  let sign := if bits < powTwo 63 then [] else ['-']
  if infinityBits ≤ magnitude then "null".toList
  else if magnitude = 0 then sign ++ "0.0".toList
  else sign ++ (Positive.ofBits magnitude).shortest.text

/-- The text of a number. -/
def Number.text : Number → List Char
  | .int n => Decimal.intText n
  | .float x => Binary64.text x

namespace Json

/-- How a character is written inside a string: controls, the quote and the
    backslash are escaped. -/
def escapeChar (c : Char) : List Char :=
  match c with
  | '"' => ['\\', '"']
  | '\\' => ['\\', '\\']
  | '\n' => ['\\', 'n']
  | '\r' => ['\\', 'r']
  | '\t' => ['\\', 't']
  | '\x08' => ['\\', 'b']
  | '\x0c' => ['\\', 'f']
  | c =>
    if c.toNat < 0x20 then
      ['\\', 'u', '0', '0', Nat.digitChar (c.toNat / 16), Nat.digitChar (c.toNat % 16)]
    else [c]

/-- The text of a string, quotes included. -/
def stringText (s : List Char) : List Char := '"' :: s.flatMap escapeChar ++ ['"']

mutual

/-- The text of a value without any blank between its parts. -/
def compact : Json → List Char
  | null => "null".toList
  | bool b => (if b then "true" else "false").toList
  | number n => n.text
  | string s => stringText s.toList
  | array items => '[' :: compactItems items ++ [']']
  | object members => '\x7b' :: compactMembers members ++ ['\x7d']

/-- The texts of the items, separated by commas. -/
def compactItems : List Json → List Char
  | [] => []
  | [x] => compact x
  | x :: y :: rest => compact x ++ ',' :: compactItems (y :: rest)

/-- The texts of the members, separated by commas. -/
def compactMembers : List (String × Json) → List Char
  | [] => []
  | [(name, x)] => stringText name.toList ++ ':' :: compact x
  | (name, x) :: m :: rest =>
    stringText name.toList ++ ':' :: compact x ++ ',' :: compactMembers (m :: rest)

end

/-- The compact text of a value. -/
def text (j : Json) : String := String.ofList j.compact

/-- A new line at a depth of indentation. -/
def newline (depth : Nat) : List Char := '\n' :: List.replicate (2 * depth) ' '

mutual

/-- The text of a value with every item and member on its own line. -/
def indented (depth : Nat) : Json → List Char
  | array [] => ['[', ']']
  | array (x :: xs) =>
    '[' :: newline (depth + 1) ++ indented (depth + 1) x ++ indentedItems (depth + 1) xs ++
      newline depth ++ [']']
  | object [] => ['\x7b', '\x7d']
  | object ((name, x) :: ms) =>
    '\x7b' :: newline (depth + 1) ++ stringText name.toList ++ [':', ' '] ++
      indented (depth + 1) x ++ indentedMembers (depth + 1) ms ++ newline depth ++ ['\x7d']
  | null => "null".toList
  | bool b => (if b then "true" else "false").toList
  | number n => n.text
  | string s => stringText s.toList

/-- The items after the first one. -/
def indentedItems (depth : Nat) : List Json → List Char
  | [] => []
  | x :: xs => ',' :: newline depth ++ indented depth x ++ indentedItems depth xs

/-- The members after the first one. -/
def indentedMembers (depth : Nat) : List (String × Json) → List Char
  | [] => []
  | (name, x) :: ms =>
    ',' :: newline depth ++ stringText name.toList ++ [':', ' '] ++ indented depth x ++
      indentedMembers depth ms

end

/-- The text of a value over several lines. -/
def prettyText (j : Json) : String := String.ofList (j.indented 0)

end Json

end Dataflow
