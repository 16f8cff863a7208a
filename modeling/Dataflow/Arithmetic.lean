import Dataflow.Builder

/-!
# Arithmetic

A library of actions on numbers. Every plain action has a native engine. Adding two
also has a composed one, under which it stands for an algorithm that increments twice;
an increment has the same strategy under both, so that the composed engine can be
asked for throughout.

* `register` declares the library into a catalog.
* `calculation` is the algorithm with a shape of its own: with `c = a + b` and
  `d = a * c` it gives `c ^ a + d ^ b`.
-/

namespace Dataflow.Arithmetic

/-- The engine of the host functions. -/
def native : EngineKey := ⟨"native"⟩

/-- The engine under which adding two is an algorithm. -/
def composed : EngineKey := ⟨"composed"⟩

/-- A numeric parameter. -/
def numeric (name : String) : Parameter := ⟨name, .numeric⟩

/-- The only outlet of every action. -/
def result : List Parameter := [numeric "res"]

/-! ## Host functions -/

/-- The number that is an argument. -/
def argument (args : Record) (name : String) : Except Failure Float :=
  (args.number name).mapError fun e => ⟨e.message⟩

/-- The callable of a function of `a`. -/
def unary (f : Float → Float) : Callable :=
  ⟨["a"], fun args => do
    let a ← argument args "a"
    return .single (.ofFloat (f a))⟩

/-- The callable of a function of `a` and `b`. -/
def binary (f : Float → Float → Float) : Callable :=
  ⟨["a", "b"], fun args => do
    let a ← argument args "a"
    let b ← argument args "b"
    return .single (.ofFloat (f a b))⟩

/-- The quotient of `a` and `b`; there is none if `b` is zero. -/
def quotient : Callable :=
  ⟨["a", "b"], fun args => do
    let b ← argument args "b"
    if b == 0 then throw ⟨"division by zero"⟩
    let a ← argument args "a"
    return .single (.ofFloat (a / b))⟩

/-! ## Algorithms -/

/-- An outlet of a step, or an inlet of the algorithm, as an output. -/
def port (t : Terminal) : Output := .port t

/-- The difference of `a` and `b`: the sum of `a` and the negation of `b`. -/
def subtraction (negation sum : Action) : Builder.Fallible Produced := do
  let negated ← Builder.place negation
  Builder.connect (port (← Builder.inlet (.code "b"))) (← negated.inlet (.code "a"))
  let summed ← Builder.place sum
  Builder.connect (port (← Builder.inlet (.code "a"))) (← summed.inlet (.code "a"))
  Builder.connect (port (← negated.outlet (.code "res"))) (← summed.inlet (.code "b"))
  return .single (port (← summed.outlet (.code "res")))

/-- The square of `a`. -/
def square (multi : Action) : Builder.Fallible Produced := do
  let a ← Builder.inlet (.code "a")
  return .single (.step (← Builder.invoke multi [port a, port a] []))

/-- With `c = a + b` and `d = a * c`, the sum of `c ^ a` and `d ^ b`. -/
def calculation (sum multi power : Action) : Builder.Fallible Produced := do
  let a ← Builder.inlet (.code "a")
  let b ← Builder.inlet (.code "b")
  let c ← Builder.invoke sum [port a, port b] []
  let d ← Builder.invoke multi [port a, .step c] []
  let left ← Builder.invoke power [.step c, port a] []
  let right ← Builder.invoke power [.step d, port b] []
  return .single (.step (← Builder.invoke sum [.step left, .step right] []))

/-- `a`, incremented twice. -/
def twice (increment : Action) : Builder.Fallible Produced := do
  let a ← Builder.inlet (.code "a")
  let once ← Builder.invoke increment [port a] []
  return .single (.step (← Builder.invoke increment [.step once] []))

/-! ## The library -/

/-- Declares the library. -/
def register : Registration Unit := do
  let a := [numeric "a"]
  let ab := [numeric "a", numeric "b"]
  let negation ← Catalog.declare "Negation" a result
  let sum ← Catalog.declare "Sum" ab result
  let multi ← Catalog.declare "Multi" ab result
  let division ← Catalog.declare "Division" ab result
  let power ← Catalog.declare "Power" ab result
  let increment ← Catalog.declare "Increment" a result
  let addTwo ← Catalog.declare "AddTwo" a result
  Catalog.implement negation native (unary fun a => -a)
  Catalog.implement sum native (binary fun a b => a + b)
  Catalog.implement multi native (binary fun a b => a * b)
  Catalog.implement division native quotient
  Catalog.implement power native (binary Float.pow)
  Catalog.implement increment native (unary fun a => a + 1)
  Catalog.implement increment composed (unary fun a => a + 1)
  Catalog.implement addTwo native (unary fun a => a + 2)
  let _ ← Catalog.build 0 "Subtraction" ab result (subtraction negation sum)
  let _ ← Catalog.build 1 "Square" a result (square multi)
  let _ ← Catalog.build 2 "Calc" ab result (calculation sum multi power)
  let incrementTwice ← Catalog.build 3 "IncrementTwice" a result (twice increment)
  Catalog.delegate addTwo composed incrementTwice

end Dataflow.Arithmetic
