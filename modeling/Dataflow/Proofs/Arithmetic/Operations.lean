import Mathlib.Data.Set.List
import Dataflow.Proofs.Arithmetic.Library
import Dataflow.Proofs.Evaluation.Delegation

/-!
# The operations of the library

Every operation of the library takes numbers and gives a number, and on the way there are the
results of plain operations, the last of which is its own (`Arithmetic.Computes`). An evaluation
goes on from each of them if it is finite and there is a strategy for the engine that the context
names (`Arithmetic.accept`). So the result of an evaluation is known from these
(`Arithmetic.result_of_computes`), apart from the division by zero, which the host function refuses
(`Arithmetic.result_of_dividesByZero`), and from adding two, which the composed engine has done by
incrementing twice (`Arithmetic.result_addTwo`).
-/

namespace Dataflow

/-- A number as a value. -/
def Value.ofNumber (p : Number) : Value := .json (.number p)

namespace Action

variable {a : Action} {direction : Direction} {values validated r : Record} {ps : List Number}
  (hnumeric : ∀ p ∈ (a.ports direction).parameters, p.type = .numeric)

include hnumeric

/-- What passes through numeric ports is numbers. -/
theorem exists_numbers_of_validate (h : a.validate direction values = .ok validated) :
    ∃ ps : List Number, validated.values = ps.map .ofNumber := by
  suffices hvalues : validated.values ∈ Set.range (List.map Value.ofNumber) by
    obtain ⟨ps, hps⟩ := hvalues
    exact ⟨ps, hps.symm⟩
  rw [Set.range_list_map]
  intro w hw
  obtain ⟨⟨name, w⟩, hentry, rfl⟩ := List.mem_map.1 hw
  have hname : name ∈ (a.ports direction).names := keys_of_validate h ▸ List.mem_map_of_mem hentry
  obtain ⟨p, hp, rfl⟩ := List.mem_map.1 hname
  obtain ⟨v, w', -, haccepted, hget⟩ := (passes_of_validate h).accepted p hp
  rw [hnumeric p hp] at haccepted
  obtain ⟨m, rfl, -⟩ := ValueType.exists_number_of_validate haccepted
  exact ⟨m, Option.some.inj (hget.symm.trans (OrderedMap.get?_eq_some_iff.2 hentry))⟩

/-- Numbers pass through numeric ports as they are. -/
theorem validate_of_numbers (hkeys : r.keys = (a.ports direction).names)
    (hvalues : r.values = ps.map .ofNumber) : a.validate direction r = .ok r := by
  refine validate_of_fixed hkeys fun p hp w hw => ?_
  have hmem : w ∈ r.values := List.mem_map_of_mem (OrderedMap.get?_eq_some_iff.1 hw)
  rw [hvalues] at hmem
  obtain ⟨m, -, rfl⟩ := List.mem_map.1 hmem
  rw [hnumeric p hp]
  rfl

omit hnumeric in
/-- What ports refuse is not a matter of a host function. -/
theorem validate_ne_executionFailed (a : Action) (direction : Direction) (values : Record)
    (action : String) (engine : EngineKey) (failure : Failure) :
    a.validate direction values ≠ .error (.executionFailed action engine failure) := by
  intro h
  rcases error_of_validate h with h | ⟨p, -, v, -, h⟩
  · obtain ⟨_, _, heq⟩ := error_of_checkNames h
    cases heq
  · rw [coerce] at h
    split at h <;> cases h

end Action

namespace Arithmetic

/-! ## Zeros -/

section

open Float.Model Float.Model.UnpackedFloat

theorem beq_zero_iff_unpacked {u : UnpackedFloat} {s : Sign} :
    u.beq (.zero s) = true ↔ ∃ s', u = .zero s' := by
  constructor
  · intro h
    rcases u with s' | - | s' | ⟨s', m, e, hm⟩
    · cases s' <;> exact (Bool.false_ne_true h).elim
    · exact (Bool.false_ne_true h).elim
    · exact ⟨s', rfl⟩
    · cases s' <;> exact (Bool.false_ne_true h).elim
  · rintro ⟨s', rfl⟩
    rfl

/-- A zero has no bit set but the one of the sign. -/
theorem eq_of_unpack_eq_zero {b : BitVec 64} {s : Sign}
    (h : UnpackedFloat.unpack Format.binary64 b = .zero s) :
    b = 0#64 ∨ b = 0x8000000000000000#64 := by
  change (if _ then if _ then _ else _ else if _ then dite _ _ _ else _) = UnpackedFloat.zero s at h
  by_cases hones : @unpackExponent Format.binary64 b = -1#11
  · rw [if_pos hones] at h
    by_cases hmantissa : @unpackMantissa Format.binary64 b = 0#52
    · rw [if_pos hmantissa] at h
      cases h
    · rw [if_neg hmantissa] at h
      cases h
  · rw [if_neg hones] at h
    by_cases hexponent : @unpackExponent Format.binary64 b = 0#11
    · rw [if_pos hexponent] at h
      by_cases hmantissa : @unpackMantissa Format.binary64 b = 0#52
      · have hexponent := congrArg BitVec.toNat hexponent
        have hmantissa := congrArg BitVec.toNat hmantissa
        simp only [unpackExponent, unpackMantissa, Nat.reduceAdd, Nat.add_one_sub_one,
          Nat.reduceSub, BitVec.cast_eq, BitVec.extractLsb_toNat, Nat.shiftRight_eq_div_pow,
          Nat.reducePow, BitVec.toNat_ofNat, Nat.zero_mod, Nat.sub_zero] at hexponent hmantissa
        have hlt := b.isLt
        rw [← BitVec.toNat_inj, ← BitVec.toNat_inj, BitVec.toNat_ofNat, BitVec.toNat_ofNat]
        omega
      · rw [dif_neg hmantissa] at h
        cases h
    · rw [if_neg hexponent] at h
      cases h

/-- What is equal to zero is zero, of either sign. -/
theorem beq_zero_iff {x : Float} : (x == 0) = true ↔ x = 0 ∨ x = -0 := by
  constructor
  · intro h
    obtain ⟨s, hs⟩ : ∃ s, x.toModel.unpack = .zero s :=
      (beq_zero_iff_unpacked (s := .positive)).1 h
    rcases x with ⟨⟨bits, hvalid⟩⟩
    rcases eq_of_unpack_eq_zero hs with hbits | hbits
    · obtain rfl : bits = 0 := UInt64.toBitVec_inj.1 hbits
      exact .inl rfl
    · obtain rfl : bits = 0x8000000000000000 := UInt64.toBitVec_inj.1 hbits
      exact .inr rfl
  · rintro (rfl | rfl) <;> rfl

end

/-! ## Numbers that go in and come out -/

/-- The inputs of an operation, by the names of its inlets. -/
def given (ps : List Number) : Record := .ofList (["a", "b"].zip (ps.map .ofNumber))

/-- The outputs of an operation. -/
def output (x : Float) : Record := .ofList [("res", .ofNumber (.float x))]

/-- The error of an operation whose result is infinite or not a number. -/
def notFinite (op : Operation) : Error :=
  .invalidType op.code .outward "res" "null" "Numeric" "null is not a number"

variable {ev : Evaluator} {op : Operation} {inputs validated : Record} {ps : List Number}
  {x : Float} {results : List (Operation × Float)}

/-- No inlet of an operation receives the context. -/
theorem inject_eq (ev : Evaluator) (op : Operation) (inputs : Record) :
    ev.inject op.action inputs = inputs := by
  cases op <;> rfl

/-- The numbers that an operation takes are one or two. -/
theorem cases_of_length (h : ps.length = op.inlets.size) :
    (op.inlets = Operation.one ∧ ∃ p, ps = [p]) ∨
      (op.inlets = Operation.two ∧ ∃ p q, ps = [p, q]) := by
  rcases op.inlets_eq with hone | htwo
  · rw [hone] at h
    exact .inl ⟨hone, List.length_eq_one_iff.1 h⟩
  · rw [htwo] at h
    exact .inr ⟨htwo, List.length_eq_two.1 h⟩

section

variable (h : ps.length = op.inlets.size)

include h

theorem keys_given : (given ps).keys = op.inlets.names := by
  rcases cases_of_length h with ⟨hinlets, p, rfl⟩ | ⟨hinlets, p, q, rfl⟩ <;> rw [hinlets] <;> rfl

theorem values_given : (given ps).values = ps.map .ofNumber := by
  rcases cases_of_length h with ⟨-, p, rfl⟩ | ⟨-, p, q, rfl⟩ <;> rfl

theorem mapM_number_given :
    op.inlets.names.mapM (given ps).number = .ok (ps.map Number.toFloat) := by
  rcases cases_of_length h with ⟨hinlets, p, rfl⟩ | ⟨hinlets, p, q, rfl⟩ <;> rw [hinlets] <;> rfl

theorem validate_given : op.action.validate .inward (given ps) = .ok (given ps) :=
  Action.validate_of_numbers (fun _ => op.numeric_of_mem_inlets) (keys_given h) (values_given h)

end

/-- What the inlets of an operation return is numbers, as many as it takes. -/
theorem exists_given (h : op.action.validate .inward inputs = .ok validated) :
    ∃ ps, ps.length = op.inlets.size ∧ validated = given ps := by
  have hkeys : validated.keys = op.inlets.names := Action.keys_of_validate h
  obtain ⟨ps, hps⟩ := Action.exists_numbers_of_validate (fun _ => op.numeric_of_mem_inlets) h
  have hlen : ps.length = op.inlets.size := by
    rw [← Ports.length_names, ← hkeys, OrderedMap.length_keys, ← OrderedMap.length_values, hps,
      List.length_map]
  exact ⟨ps, hlen, OrderedMap.ext_keys_values (hkeys.trans (keys_given hlen).symm)
    (hps.trans (values_given hlen).symm)⟩

/-- A result passes through the outlet if it is finite. -/
theorem validate_outward (op : Operation) (x : Float) :
    op.action.validate .outward (.ofList [("res", .ofFloat x)]) =
      if x.isFinite then .ok (output x) else .error (notFinite op) := by
  rw [Value.ofFloat, Json.ofFloat]
  by_cases hx : x.isFinite = true
  · rw [if_pos hx, if_pos hx]
    rfl
  · rw [if_neg hx, if_neg hx]
    rfl

/-! ## Results along the way -/

/-- The results that an operation on numbers goes through, with the plain operations that give
    them, in order. The last one is its own. -/
inductive Computes : Operation → List Float → List (Operation × Float) → Prop
  | negation (a : Float) : Computes .negation [a] [(.negation, -a)]
  | sum (a b : Float) : Computes .sum [a, b] [(.sum, a + b)]
  | product (a b : Float) : Computes .product [a, b] [(.product, a * b)]
  | quotient (a b : Float) : Computes .quotient [a, b] [(.quotient, a / b)]
  | power (a b : Float) : Computes .power [a, b] [(.power, a.pow b)]
  | increment (a : Float) : Computes .increment [a] [(.increment, a + 1)]
  | addTwo (a : Float) : Computes .addTwo [a] [(.addTwo, a + 2)]
  | difference (a b : Float) : Computes .difference [a, b] [(.negation, -b), (.sum, a + -b)]
  | square (a : Float) : Computes .square [a] [(.product, a * a)]
  | calculation {a b c d : Float} (hc : c = a + b) (hd : d = a * c) :
    Computes .calculation [a, b] [(.sum, c), (.product, d), (.power, c.pow a), (.power, d.pow b),
      (.sum, c.pow a + d.pow b)]
  | incrementTwice (a : Float) :
    Computes .incrementTwice [a] [(.increment, a + 1), (.increment, a + 1 + 1)]

/-- An operation divides by zero, of either sign. -/
def DividesByZero (op : Operation) (xs : List Float) : Prop :=
  op = .quotient ∧ ∃ a b, xs = [a, b] ∧ (b = 0 ∨ b = -0)

/-- An evaluation goes on from the result of a plain operation if there is a strategy for the engine
    and the result is finite. -/
def accept (ev : Evaluator) (r : Operation × Float) : Except Error Unit :=
  if engineOf ev ∈ r.1.engines then
    if r.2.isFinite then .ok () else .error (notFinite r.1)
  else .error (.unknownEngine r.1.code (engineOf ev))

/-- An evaluation goes on from results, one after the other. -/
def acceptAll (ev : Evaluator) : List (Operation × Float) → Except Error Unit
  | [] => .ok ()
  | r :: rest => do
    accept ev r
    acceptAll ev rest

/-- What operations take determines what they go through. -/
theorem exists_computes (hlen : ps.length = op.inlets.size) :
    ∃ results, Computes op (ps.map Number.toFloat) results := by
  cases op <;>
    rcases cases_of_length hlen with ⟨hinlets, p, rfl⟩ | ⟨hinlets, p, q, rfl⟩ <;>
    first | exact ⟨_, .calculation rfl rfl⟩ | exact ⟨_, by constructor⟩ | cases hinlets

/-! ## Plain operations -/

theorem body_quotient (p q : Number) : Arithmetic.quotient.body (given [p, q]) =
    if q.toFloat == 0 then .error ⟨"division by zero"⟩
    else .ok (.single (.ofFloat (p.toFloat / q.toFloat))) := by
  show (if q.toFloat == 0 then _ else _ : Except Failure Returned) = _
  split <;> rfl

/-- The host function of a plain operation gives its result. -/
theorem call_of_computes {c : Callable} (hc : op.callable? = some c)
    (hlen : ps.length = op.inlets.size) (h : Computes op (ps.map Number.toFloat) results)
    (hzero : ¬DividesByZero op (ps.map Number.toFloat)) :
    c.accepts (given ps) = true ∧ ∃ x, results = [(op, x)] ∧
      c.body (given ps) = .ok (.single (.ofFloat x)) := by
  rcases cases_of_length hlen with ⟨-, p, rfl⟩ | ⟨-, p, q, rfl⟩ <;> cases h <;> cases hc <;>
    refine ⟨rfl, _, rfl, ?_⟩
  case inr.quotient.refl =>
    have hne : (q.toFloat == 0) ≠ true := fun h => hzero ⟨rfl, _, _, rfl, beq_zero_iff.1 h⟩
    rw [body_quotient, if_neg hne]
  all_goals rfl

section

variable (hcatalog : ev.catalog = catalog) {c : Callable} (hc : op.callable? = some c)
  (hlen : ps.length = op.inlets.size)

include hcatalog hc hlen

/-- A plain operation fails if there is no strategy for the engine. -/
theorem result_of_not_mem (hengine : engineOf ev ∉ op.engines) (n d : Nat) :
    (ev.evaluateAction (n + 1) d op.action (given ps)).result =
      .error (.failed (.unknownEngine op.code (engineOf ev))) := by
  rw [Evaluator.evaluateAction, inject_eq, validate_given hlen, Run.result_bind]
  show (ev.compute _ d op.action (given ps) >>= _).result = _
  rw [Run.result_bind, ev.compute_of_plain (congrArg Action.graph (Operation.action_eq_shell hc)),
    Run.result_bind, Evaluator.result_select,
    Operation.chooseStrategy_of_not_mem hcatalog hc hengine]
  rfl

variable (haddTwo : op = .addTwo → engineOf ev ≠ composed)

include haddTwo

/-- Otherwise its host function is called. -/
theorem result_of_mem (hengine : engineOf ev ∈ op.engines) (haccepts : c.accepts (given ps) = true)
    (n d : Nat) :
    (ev.evaluateAction (n + 1) d op.action (given ps)).result =
      (do
        let returned ← (c.body (given ps)).mapError (Error.executionFailed op.code (engineOf ev))
        let outputs ← returned.toOutputs op.action
        op.action.validate .outward outputs).mapError .failed := by
  rw [Evaluator.evaluateAction, inject_eq, validate_given hlen, Run.result_bind]
  show (ev.compute _ d op.action (given ps) >>= _).result = _
  rw [Run.result_bind, Evaluator.result_compute_of_call
    (congrArg Action.graph (Operation.action_eq_shell hc))
    (Operation.chooseStrategy_of_mem hcatalog hc hengine haddTwo) rfl, Strategy.call]
  dsimp only
  rw [if_pos haccepts]
  rcases c.body (given ps) with failure | returned
  · rfl
  · exact (Except.mapError_bind _ _ _).symm

/-- A plain operation gives its result. -/
theorem result_of_plain (h : Computes op (ps.map Number.toFloat) [(op, x)])
    (hzero : ¬DividesByZero op (ps.map Number.toFloat)) (n d : Nat) :
    (ev.evaluateAction (n + 1) d op.action (given ps)).result =
      ((accept ev (op, x)).map fun _ => output x).mapError .failed := by
  obtain ⟨haccepts, y, hy, hcall⟩ := call_of_computes hc hlen h hzero
  cases hy
  rw [accept]
  by_cases hengine : engineOf ev ∈ op.engines
  · rw [if_pos hengine, result_of_mem hcatalog hc hlen haddTwo hengine haccepts, hcall]
    show (op.action.validate .outward (.ofList [("res", .ofFloat x)])).mapError _ = _
    rw [validate_outward]
    dsimp only
    split <;> rfl
  · rw [if_neg hengine, result_of_not_mem hcatalog hc hlen hengine]
    rfl

end

/-- Division by zero fails. -/
theorem result_of_dividesByZero (hcatalog : ev.catalog = catalog)
    (hlen : ps.length = op.inlets.size) (hzero : DividesByZero op (ps.map Number.toFloat))
    (hengine : engineOf ev = native) (n d : Nat) :
    (ev.evaluateAction (n + 1) d op.action (given ps)).result =
      .error (.failed (.executionFailed "Division" native ⟨"division by zero"⟩)) := by
  obtain ⟨rfl, a, b, hxs, hb⟩ := hzero
  obtain ⟨p, q, rfl⟩ := List.length_eq_two.1 hlen
  obtain ⟨-, rfl⟩ : p.toFloat = a ∧ q.toFloat = b := by simpa using hxs
  rw [result_of_mem hcatalog rfl hlen (fun h => nomatch h) (by rw [hengine]; decide) rfl,
    body_quotient, if_pos (beq_zero_iff.2 hb), hengine]
  rfl

/-! ## Operations that are defined by others -/

section

variable {n d : Nat}

/-- A step for a plain operation goes on from its result. -/
theorem evaluateSteps_cons (hcatalog : ev.catalog = catalog) (ps : List Number) {A : Action}
    {g : Graph} {table : ValueTable} {k : Nat} {rest : List Step} {outputs : Record}
    {goOn : ValueTable → Run Halt Record} {c : Callable} (hc : op.callable? = some c)
    (hop : op ≠ .addTwo ∧ op ≠ .quotient) (hlen : ps.length = op.inlets.size)
    (h : Computes op (ps.map Number.toFloat) [(op, x)])
    (hargs : ev.arguments A g table ⟨A.code, k, op.shell⟩ = .ok (given ps).entries)
    (hrest : (ev.evaluateSteps (ev.evaluateAction (n + 1) (d + 1)) d A g rest
      ((.stepOutlet ⟨k, 0⟩, .ofNumber (.float x)) :: table) >>= goOn).result =
        ((acceptAll ev results).map fun _ => outputs).mapError .failed) :
    (ev.evaluateSteps (ev.evaluateAction (n + 1) (d + 1)) d A g
      (⟨A.code, k, op.shell⟩ :: rest) table >>= goOn).result =
        ((acceptAll ev ((op, x) :: results)).map fun _ => outputs).mapError .failed := by
  have hofList : OrderedMap.ofList (given ps).entries = given ps :=
    OrderedMap.ext (OrderedMap.entries_ofList (given ps).nodup)
  rw [Evaluator.evaluateSteps, bind_assoc, Run.result_bind, ev.result_evaluateStep hargs]
  dsimp only
  rw [hofList, ← Operation.action_eq_shell hc,
    result_of_plain hcatalog hc hlen (fun heq => absurd heq hop.1) h fun hzero => hop.2 hzero.1,
    acceptAll]
  rcases accept ev (op, x) with e | u
  · rfl
  · exact hrest

/-- An operation with a graph gives what its steps come to. -/
theorem result_of_steps {g : Graph} {start : ValueTable} (hg : op.graph? = some g)
    (hlen : ps.length = op.inlets.size)
    (hstart : ValueTable.enter op.action .inward .inlet [] (given ps).entries = .ok start)
    (hsteps : (ev.evaluateSteps (ev.evaluateAction n (d + 1)) d op.action g g.steps start >>=
      fun table => do
        let entries ← Evaluator.expect (Evaluator.results op.action g table)
        return .ofList entries).result =
      ((acceptAll ev results).map fun _ => output x).mapError .failed) :
    (ev.evaluateAction (n + 1) d op.action (given ps)).result =
      ((acceptAll ev results).map fun _ => output x).mapError .failed := by
  rw [Evaluator.evaluateAction, inject_eq, validate_given hlen, Run.result_bind]
  show (ev.compute _ d op.action (given ps) >>= _).result = _
  rw [Run.result_bind, ev.compute_of_graph hg, Evaluator.evaluateGraph, hstart, Run.result_bind]
  show (ev.evaluateSteps _ d op.action g g.steps start >>= _).result >>= _ = _
  rw [hsteps]
  -- The outlet lets the last result through, which has passed it already.
  rcases acceptAll ev results with e | u <;> rfl

variable (hcatalog : ev.catalog = catalog)

include hcatalog

theorem result_difference (p q : Number) :
    let b := -q.toFloat
    (ev.evaluateAction (n + 2) d Operation.difference.action (given [p, q])).result =
      ((acceptAll ev [(.negation, b), (.sum, p.toFloat + b)]).map
        fun _ => output (p.toFloat + b)).mapError .failed := by
  intro b
  refine result_of_steps rfl rfl rfl ?_
  refine evaluateSteps_cons hcatalog [q] rfl (by decide) rfl (.negation _) rfl ?_
  refine evaluateSteps_cons hcatalog [p, .float b] rfl (by decide) rfl (.sum _ _) rfl ?_
  rfl

theorem result_square (p : Number) :
    let b := p.toFloat * p.toFloat
    (ev.evaluateAction (n + 2) d Operation.square.action (given [p])).result =
      ((acceptAll ev [(.product, b)]).map fun _ => output b).mapError .failed := by
  intro b
  refine result_of_steps rfl rfl rfl ?_
  refine evaluateSteps_cons hcatalog [p, p] rfl (by decide) rfl (.product _ _) rfl ?_
  rfl

theorem result_calculation (p q : Number) :
    let a := p.toFloat
    let b := q.toFloat
    let c := a + b
    let m := a * c
    (ev.evaluateAction (n + 2) d Operation.calculation.action (given [p, q])).result =
      ((acceptAll ev [(.sum, c), (.product, m), (.power, c.pow a), (.power, m.pow b),
        (.sum, c.pow a + m.pow b)]).map fun _ => output (c.pow a + m.pow b)).mapError .failed := by
  intro a b c m
  refine result_of_steps rfl rfl rfl ?_
  refine evaluateSteps_cons hcatalog [p, q] rfl (by decide) rfl (.sum _ _) rfl ?_
  refine evaluateSteps_cons hcatalog [p, .float c] rfl (by decide) rfl (.product _ _) rfl ?_
  refine evaluateSteps_cons hcatalog [.float c, p] rfl (by decide) rfl (.power _ _) rfl ?_
  refine evaluateSteps_cons hcatalog [.float m, q] rfl (by decide) rfl (.power _ _) rfl ?_
  refine evaluateSteps_cons hcatalog [.float (c.pow a), .float (m.pow b)] rfl (by decide)
    rfl (.sum _ _) rfl ?_
  rfl

theorem result_incrementTwice (p : Number) :
    let b := p.toFloat + 1
    (ev.evaluateAction (n + 2) d Operation.incrementTwice.action (given [p])).result =
      ((acceptAll ev [(.increment, b), (.increment, b + 1)]).map
        fun _ => output (b + 1)).mapError .failed := by
  intro b
  refine result_of_steps rfl rfl rfl ?_
  refine evaluateSteps_cons hcatalog [p] rfl (by decide) rfl (.increment _) rfl ?_
  refine evaluateSteps_cons hcatalog [.float b] rfl (by decide) rfl (.increment _) rfl ?_
  rfl

/-- By the composed engine, adding two is incrementing twice. -/
theorem result_addTwo (hengine : engineOf ev = composed) (p : Number) :
    let b := p.toFloat + 1
    (ev.evaluateAction (n + 3) d Operation.addTwo.action (given [p])).result =
      ((acceptAll ev [(.increment, b), (.increment, b + 1)]).map
        fun _ => output (b + 1)).mapError .failed := by
  intro b
  rw [Evaluator.evaluateAction, inject_eq, validate_given rfl, Run.result_bind]
  show (ev.compute _ d Operation.addTwo.action (given [p]) >>= _).result = _
  rw [Run.result_bind, Evaluator.result_compute_of_target rfl
    (Operation.chooseStrategy_addTwo hcatalog hengine) rfl, result_incrementTwice hcatalog]
  rcases acceptAll ev [(.increment, b), (.increment, b + 1)] with e | u <;> rfl

/-- An operation goes through its results, and gives the last one. -/
theorem result_of_computes (hlen : ps.length = op.inlets.size)
    (h : Computes op (ps.map Number.toFloat) results)
    (hzero : ¬DividesByZero op (ps.map Number.toFloat))
    (haddTwo : op = .addTwo → engineOf ev ≠ composed) :
    ∃ last, results.getLast? = some last ∧
      (ev.evaluateAction (n + 2) d op.action (given ps)).result =
        ((acceptAll ev results).map fun _ => output last.2).mapError .failed := by
  rcases hc : op.callable? with - | c
  · rcases cases_of_length hlen with ⟨-, p, rfl⟩ | ⟨-, p, q, rfl⟩ <;> cases h
    case inl.square => exact ⟨_, rfl, result_square hcatalog p⟩
    case inl.incrementTwice => exact ⟨_, rfl, result_incrementTwice hcatalog p⟩
    case inr.difference => exact ⟨_, rfl, result_difference hcatalog p q⟩
    case inr.calculation hc hd =>
      subst hc hd
      exact ⟨_, rfl, result_calculation hcatalog p q⟩
    all_goals cases hc
  · obtain ⟨-, x, rfl, -⟩ := call_of_computes hc hlen h hzero
    refine ⟨_, rfl, (result_of_plain hcatalog hc hlen haddTwo h hzero (n + 1) d).trans ?_⟩
    rw [acceptAll, acceptAll]
    rcases accept ev (op, x) with e | u <;> rfl

end

end Arithmetic

end Dataflow
