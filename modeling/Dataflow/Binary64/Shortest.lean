import Dataflow.Decimal.Digits
import Dataflow.Powers

/-!
# Shortest decimal digits

The shortest decimal that is read back as a given binary64 number: of the
decimals with the fewest digits inside the interval of reals that round to the
number, the nearest, and of two equally near the one with the even last digit.

Everything is computed exactly. A positive finite number is `m * 2 ^ q`; in
quarters of its last place the interval around `4 * m` reaches up to `4 * m + 2`
and down to `4 * m - 2`, or to `4 * m - 1` where the number below is nearer. Its
ends belong to it exactly when `m` is even.
-/

namespace Dataflow.Binary64

/-- A positive finite number `significand * 2 ^ exponent`. -/
structure Positive where
  /-- The significand. -/
  significand : Nat
  /-- The exponent of the last place. -/
  exponent : Int
  /-- Whether the next number below is nearer than the next above. -/
  narrowBelow : Bool

/-- The positive number that the lower 63 bits encode. -/
def Positive.ofBits (bits : Nat) : Positive :=
  let field : Nat := bits / powTwo 52 % powTwo 11
  let fraction : Nat := bits % powTwo 52
  if field = 0 then ⟨fraction, -1074, false⟩
  else ⟨powTwo 52 + fraction, (field : Int) - 1075, fraction == 0 && 1 < field⟩

/-- The floor of the decimal logarithm of `num / den`, for positive arguments. -/
def floorLog10 (num den : Nat) : Int :=
  if den ≤ num then (Decimal.digits (num / den)).length - 1
  else -((Decimal.digits ((den - 1) / num)).length : Int)

/-- A decimal: `digits` with the point after the first one, times a power of
    ten. -/
structure Scientific where
  /-- The digits, the first one before the point. -/
  digits : List Nat
  /-- The power of ten. -/
  exponent : Int

/-- The decimal `coefficient * 10 ^ exponent`, without zeros at its end. -/
def Scientific.ofCoefficient (coefficient : Nat) (exponent : Int) : Scientific :=
  let digits := Decimal.digits coefficient
  ⟨(digits.reverse.dropWhile (· == 0)).reverse, exponent + digits.length - 1⟩

/-- The multiple of `10 ^ k` that is read back as `x`, if there is one: the
    nearer of the neighbours of `x` among those that lie in its interval. -/
def Positive.onGrid? (x : Positive) (k : Int) : Option Nat :=
  -- a multiple `d` of the grid stands for `d * grid`, a quarter for `quarter`
  let grid := powTwo (2 - x.exponent).toNat * powTen k.toNat
  let quarter := powTwo (x.exponent - 2).toNat * powTen (-k).toNat
  let exact := 4 * x.significand * quarter
  let low := (4 * x.significand - if x.narrowBelow then 1 else 2) * quarter
  let high := (4 * x.significand + 2) * quarter
  let inside (d : Nat) : Bool :=
    if x.significand % 2 = 0 then low ≤ d * grid && d * grid ≤ high
    else low < d * grid && d * grid < high
  let below := exact / grid
  let above := below + 1
  match inside below, inside above with
  | true, true =>
    let down := exact - below * grid
    let up := above * grid - exact
    some (if down < up ∨ (down = up ∧ below % 2 = 0) then below else above)
  | true, false => some below
  | false, true => some above
  | false, false => none

/-- The first hit on the grids that give `count` digits, `count + 1` digits and
    so on, for as many grids as `tries`. -/
def Positive.search (x : Positive) (top : Int) (count : Nat) : Nat → Option Scientific
  | 0 => none
  | tries + 1 =>
    let k := top - count + 1
    match x.onGrid? k with
    | some d => some (.ofCoefficient d k)
    | none => x.search top (count + 1) tries

/-- The shortest decimal that is read back as `x`; seventeen digits always
    suffice. -/
def Positive.shortest (x : Positive) : Scientific :=
  let top := floorLog10 (x.significand * powTwo x.exponent.toNat) (powTwo (-x.exponent).toNat)
  (x.search top 1 17).getD ⟨[0], 0⟩

end Dataflow.Binary64
