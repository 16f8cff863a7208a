import Dataflow.Decimal.Digits
import Dataflow.Powers

/-!
# Rounding to binary64

The binary64 number nearest to an exact quotient, in integer arithmetic: the one
with the even significand if two are equally near, infinity if the quotient
rounds beyond the largest finite number. Integers and decimal literals are read
with a single rounding.

* `roundDiv_even`: a tie goes to the even neighbour.
* `roundDiv_error`: no integer is nearer than the one that is taken.
-/

namespace Dataflow.Binary64

/-- The integer nearest to `num / den`, the even one of two that are equally
    near. -/
def roundDiv (num den : Nat) : Nat :=
  let quotient := num / den
  let double := 2 * (num % den)
  if double < den ∨ (double = den ∧ quotient % 2 = 0) then quotient else quotient + 1

/-- The floor of the binary logarithm of `num / den`, for positive arguments. -/
def floorLog2 (num den : Nat) : Int :=
  let e : Int := (num.log2 : Int) - den.log2
  if den * powTwo e.toNat ≤ num * powTwo (-e).toNat then e else e - 1

/-- The bits of infinity. -/
def infinityBits : Nat := 0x7FF * powTwo 52

/-- The bits of the number nearest to `num / den`, for a positive `den`. -/
def nearestBits (num den : Nat) : Nat :=
  if num = 0 then 0
  else
    -- the exponent of the last place: 53 places, fewer near zero
    let q : Int := max (floorLog2 num den - 52) (-1074)
    let significand := roundDiv (num * powTwo (-q).toNat) (den * powTwo q.toNat)
    min ((q + 1074).toNat * powTwo 52 + significand) infinityBits

/-- The number with these bits and a sign. -/
def ofMagnitude (negative : Bool) (bits : Nat) : Float :=
  Float.ofBits (UInt64.ofNat (bits + if negative then powTwo 63 else 0))

/-- The number nearest to `num / den`, or to its negative. -/
def ofRatio (negative : Bool) (num den : Nat) : Float := ofMagnitude negative (nearestBits num den)

/-- The number nearest to an integer. -/
def ofInt (n : Int) : Float := ofRatio (n < 0) n.natAbs 1

/-- The number nearest to `digits` read as an integer times a power of ten.
    Beyond the bounds tested first every number is infinite or zero. -/
def ofDecimal (negative : Bool) (digits : List Nat) (exponent : Int) : Float :=
  let digits := digits.dropWhile (· == 0)
  let top : Int := digits.length + exponent
  if digits.isEmpty ∨ top < -330 then ofMagnitude negative 0
  else if 310 < top then ofMagnitude negative infinityBits
  else
    ofRatio negative (Decimal.value digits * powTen exponent.toNat) (powTen (-exponent).toNat)

theorem roundDiv_even {num den : Nat} (h : 2 * (num % den) = den) :
    roundDiv num den % 2 = 0 := by
  simp only [roundDiv, h, true_and]
  split <;> omega

/-- The rounded quotient is within half a unit of the exact one. -/
theorem roundDiv_error {num den : Nat} (hden : 0 < den) :
    2 * num ≤ 2 * (roundDiv num den * den) + den ∧
      2 * (roundDiv num den * den) ≤ 2 * num + den := by
  have hdiv := Nat.div_add_mod num den
  have hmod := Nat.mod_lt num hden
  have hmul : den * (num / den) = num / den * den := Nat.mul_comm ..
  simp only [roundDiv]
  split
  · omega
  · rw [Nat.add_mul, Nat.one_mul]
    omega

end Dataflow.Binary64
