/-!
# Powers of two and ten

The numbers that binary and decimal significands are scaled by, as natural numbers.
-/

namespace Dataflow

/-- Two to the power of `n`. -/
abbrev powTwo (n : Nat) : Nat := Nat.pow 2 n

/-- Ten to the power of `n`. -/
abbrev powTen (n : Nat) : Nat := Nat.pow 10 n

end Dataflow
