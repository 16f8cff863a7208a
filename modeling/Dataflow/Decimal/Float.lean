import Dataflow.Binary64.Nearest
import Dataflow.Text.Blank

/-!
# Numbers in text

The float that a text from outside stands for: an optional sign, digits with an
optional point anywhere among them, and an optional exponent, between blanks. It is
rounded once, so the text of a float is read back as that float.
-/

namespace Dataflow.Decimal

/-- The sign at the front of a text, and what follows it. -/
def takeSign : List Char → Bool × List Char
  | '+' :: rest => (false, rest)
  | '-' :: rest => (true, rest)
  | rest => (false, rest)

/-- The exponent that a whole text is; no exponent is an exponent of zero. -/
def exponent? : List Char → Option Int
  | [] => some 0
  | e :: rest =>
    if e = 'e' ∨ e = 'E' then
      let (negative, rest) := takeSign rest
      let (digits, rest) := takeDigits rest
      let size : Int := value digits
      if digits.isEmpty ∨ !rest.isEmpty then none else some (if negative then -size else size)
    else none

/-- The float that the characters stand for, if it is finite. -/
def floatOfChars? (cs : List Char) : Option Float := do
  let (negative, rest) := takeSign cs
  let (whole, rest) := takeDigits rest
  let (fraction, rest) :=
    match rest with
    | '.' :: rest => takeDigits rest
    | rest => ([], rest)
  let digits := whole ++ fraction
  let exponent ← exponent? rest
  let x := Binary64.ofDecimal negative digits (exponent - fraction.length)
  if digits.isEmpty ∨ !x.isFinite then none else some x

/-- The float that a text stands for, if it is finite; blanks at its ends do not
    count. -/
def float? (s : String) : Option Float := floatOfChars? (Text.trimChars s.toList)

end Dataflow.Decimal
