import Dataflow.Proofs.Arithmetic.Operations
import Dataflow.Proofs.Evaluation.Inputs

/-!
# What the library computes

An evaluation of an operation goes through the results of plain operations. If all are finite, it
gives the last one, and otherwise it fails for the first that is not
(`Arithmetic.GoesThrough`). This is so for the native engine, and for the composed one where the
plain operations are increments; where there is no strategy for an engine, the evaluation fails for
the first plain operation (`Arithmetic.returns_unknownEngine`).
-/

namespace Dataflow

namespace Arithmetic

variable {ev : Evaluator} {op : Operation} {inputs validated : Record} {ps : List Number}
  {results : List (Operation × Float)}

/-! ## How far an evaluation goes -/

section

variable {xs : List Float} (h : Computes op xs results)

include h

theorem Computes.ne_nil : results ≠ [] := by
  cases h <;> exact List.cons_ne_nil _ _

theorem Computes.native_mem : ∀ r ∈ results, native ∈ r.1.engines := by
  cases h <;> simp [Operation.engines]

theorem Computes.composed_mem (hop : op = .increment ∨ op = .incrementTwice) :
    ∀ r ∈ results, composed ∈ r.1.engines := by
  rcases hop with rfl | rfl <;> cases h <;> simp [Operation.engines]

theorem Computes.composed_not_mem (haddTwo : op ≠ .addTwo) (hincrement : op ≠ .increment)
    (htwice : op ≠ .incrementTwice) : ∀ r ∈ results, composed ∉ r.1.engines := by
  have hne : composed ≠ native := by decide
  cases h <;> first
    | exact absurd rfl haddTwo
    | exact absurd rfl hincrement
    | exact absurd rfl htwice
    | simp [Operation.engines, hne]

theorem Computes.not_mem {engine : EngineKey} (hnative : engine ≠ native)
    (hcomposed : engine ≠ composed) : ∀ r ∈ results, engine ∉ r.1.engines := by
  cases h <;> simp [Operation.engines, hnative, hcomposed]

end

theorem acceptAll_of_finite (hengine : ∀ r ∈ results, engineOf ev ∈ r.1.engines)
    (hfinite : ∀ r ∈ results, r.2.isFinite = true) : acceptAll ev results = .ok () := by
  induction results with
  | nil => rfl
  | cons r rest ih =>
    rw [acceptAll, accept, if_pos (hengine r List.mem_cons_self),
      if_pos (hfinite r List.mem_cons_self)]
    exact ih (fun q hq => hengine q (List.mem_cons_of_mem _ hq))
      fun q hq => hfinite q (List.mem_cons_of_mem _ hq)

/-- Results are accepted up to the first that is not finite. -/
theorem acceptAll_of_not_finite {before after : List (Operation × Float)} {r : Operation × Float}
    (hengine : ∀ q ∈ before ++ r :: after, engineOf ev ∈ q.1.engines)
    (hfinite : ∀ q ∈ before, q.2.isFinite = true) (hr : r.2.isFinite = false) :
    acceptAll ev (before ++ r :: after) = .error (notFinite r.1) := by
  induction before with
  | nil =>
    rw [List.nil_append, acceptAll, accept, if_pos (hengine r List.mem_cons_self),
      if_neg (by rw [hr]; decide)]
    rfl
  | cons q rest ih =>
    rw [List.cons_append, acceptAll, accept, if_pos (hengine q List.mem_cons_self),
      if_pos (hfinite q List.mem_cons_self)]
    exact ih (fun q' hq => hengine q' (List.mem_cons_of_mem _ hq))
      fun q' hq => hfinite q' (List.mem_cons_of_mem _ hq)

theorem acceptAll_of_not_mem {first : Operation × Float} {rest : List (Operation × Float)}
    (h : engineOf ev ∉ first.1.engines) :
    acceptAll ev (first :: rest) = .error (.unknownEngine first.1.code (engineOf ev)) := by
  rw [acceptAll, accept, if_neg h]
  rfl

/-- The error of an evaluation that does not go on is not one of a host function. -/
theorem acceptAll_ne_executionFailed (action : String) (engine : EngineKey) (failure : Failure) :
    acceptAll ev results ≠ .error (.executionFailed action engine failure) := by
  intro h
  induction results with
  | nil => cases h
  | cons r rest ih =>
    rw [acceptAll, accept] at h
    split at h
    · split at h
      · exact ih h
      · cases h
    · cases h

/-- So an evaluation that goes from result to result does not fail in a host function. -/
theorem not_returns_executionFailed {a : Action} {y : Float} {n d : Nat}
    (h : (ev.evaluateAction n d a inputs).result =
      ((acceptAll ev results).map fun _ => output y).mapError .failed)
    (action : String) (engine : EngineKey) (failure : Failure) :
    ¬ev.Returns a inputs (.error (.executionFailed action engine failure)) := by
  intro hfails
  have heq := (Evaluator.returns_of_evaluateAction h).unique hfails
  rcases haccept : acceptAll ev results with e | u
  · rw [haccept] at heq
    obtain ⟨rfl⟩ := heq
    exact acceptAll_ne_executionFailed action engine failure haccept
  · rw [haccept] at heq
    cases heq

/-- The evaluation of an action goes through results: if all are finite, it gives the last one;
    otherwise it fails for the first that is not. -/
structure GoesThrough (ev : Evaluator) (a : Action) (inputs : Record)
    (results : List (Operation × Float)) : Prop where
  /-- Finite results lead to the last one. -/
  finite : (∀ r ∈ results, r.2.isFinite = true) →
    ∃ last, results.getLast? = some last ∧ ev.Returns a inputs (.ok (output last.2))
  /-- A result that is not finite, the first of its kind, is refused. -/
  infinite : ∀ before r after, results = before ++ r :: after →
    (∀ q ∈ before, q.2.isFinite = true) → r.2.isFinite = false →
      ev.Returns a inputs (.error (notFinite r.1))

theorem GoesThrough.of_returns {a : Action} {inputs' : Record}
    (h : GoesThrough ev a inputs' results)
    (hreturns : ∀ r, ev.Returns a inputs r ↔ ev.Returns a inputs' r) :
    GoesThrough ev a inputs results := by
  refine ⟨fun hfinite => ?_, fun before r after hresults hfinite hr =>
    (hreturns _).2 (h.infinite before r after hresults hfinite hr)⟩
  obtain ⟨last, hlast, hlast'⟩ := h.finite hfinite
  exact ⟨last, hlast, (hreturns _).2 hlast'⟩

theorem goesThrough_of_result {a : Action} {last : Operation × Float} {n d : Nat}
    (hengine : ∀ r ∈ results, engineOf ev ∈ r.1.engines) (hlast : results.getLast? = some last)
    (h : (ev.evaluateAction n d a inputs).result =
      ((acceptAll ev results).map fun _ => output last.2).mapError .failed) :
    GoesThrough ev a inputs results := by
  have hreturns := Evaluator.returns_of_evaluateAction h
  refine ⟨fun hfinite => ⟨last, hlast, ?_⟩, ?_⟩
  · rw [acceptAll_of_finite hengine hfinite] at hreturns
    exact hreturns
  · rintro before r after rfl hfinite hr
    rw [acceptAll_of_not_finite hengine hfinite hr] at hreturns
    exact hreturns

/-! ## The library as a whole -/

section

variable (hcatalog : ev.catalog = catalog) {xs : List Float}

/-- An evaluation sees the numbers that the inlets return. -/
theorem returns_given (ev : Evaluator) (hlen : ps.length = op.inlets.size)
    (h : op.action.validate .inward inputs = .ok (given ps)) {r : Except Error Record} :
    ev.Returns op.action inputs r ↔ ev.Returns op.action (given ps) r := by
  have hvalidate : op.action.validate .inward (ev.inject op.action inputs) =
      op.action.validate .inward (ev.inject op.action (given ps)) := by
    rw [inject_eq, inject_eq, h, validate_given hlen]
  exact exists_congr fun limit => by rw [ev.evaluate_congr hvalidate]

include hcatalog

/-- Where there is a strategy for every result, an evaluation goes through them. -/
theorem goesThrough_of_computes {engine : EngineKey} (hengine : engineOf ev = engine)
    (hlen : ps.length = op.inlets.size)
    (hvalidate : op.action.validate .inward inputs = .ok (given ps))
    (h : Computes op (ps.map Number.toFloat) results)
    (hzero : ¬DividesByZero op (ps.map Number.toFloat))
    (haddTwo : op = .addTwo → engine ≠ composed) (hmem : ∀ r ∈ results, engine ∈ r.1.engines) :
    GoesThrough ev op.action inputs results := by
  subst hengine
  obtain ⟨last, hlast, hresult⟩ :=
    result_of_computes (n := 0) (d := 0) hcatalog hlen h hzero haddTwo
  exact (goesThrough_of_result hmem hlast hresult).of_returns fun _ =>
    returns_given ev hlen hvalidate

/-- With the composed engine, adding two goes through two increments. -/
theorem goesThrough_addTwo (hengine : engineOf ev = composed) {p : Number}
    (hvalidate : Operation.addTwo.action.validate .inward inputs = .ok (given [p])) :
    GoesThrough ev Operation.addTwo.action inputs
      [(.increment, p.toFloat + 1), (.increment, p.toFloat + 1 + 1)] := by
  have hmem : ∀ r ∈ [(Operation.increment, p.toFloat + 1), (.increment, p.toFloat + 1 + 1)],
      engineOf ev ∈ r.1.engines := by
    rw [hengine]
    simp [Operation.engines]
  have hresult := result_addTwo (n := 0) (d := 0) hcatalog hengine p
  exact (goesThrough_of_result hmem rfl hresult).of_returns fun _ =>
    returns_given ev rfl hvalidate

/-- Where there is no strategy for the first result, that is what the evaluation fails for. -/
theorem returns_unknownEngine {engine : EngineKey} (hengine : engineOf ev = engine)
    (hlen : ps.length = op.inlets.size)
    (hvalidate : op.action.validate .inward inputs = .ok (given ps))
    (h : Computes op (ps.map Number.toFloat) results)
    (haddTwo : op = .addTwo → engine ≠ composed) (hmem : ∀ r ∈ results, engine ∉ r.1.engines) :
    ∃ first, results.head? = some first ∧
      ev.Returns op.action inputs (.error (.unknownEngine first.1.code engine)) := by
  subst hengine
  obtain ⟨first, rest, rfl⟩ : ∃ first rest, results = first :: rest :=
    List.exists_cons_of_ne_nil h.ne_nil
  refine ⟨first, rfl, (returns_given ev hlen hvalidate).2 ?_⟩
  have hfirst := hmem first List.mem_cons_self
  by_cases hzero : DividesByZero op (ps.map Number.toFloat)
  · obtain ⟨rfl, a, b, hxs, -⟩ := hzero
    rw [hxs] at h
    cases h
    exact Evaluator.returns_of_evaluateAction (n := 1) (d := 0) (r := .error _)
      (result_of_not_mem hcatalog rfl hlen hfirst 0 0)
  · obtain ⟨last, -, hresult⟩ :=
      result_of_computes (n := 0) (d := 0) hcatalog hlen h hzero haddTwo
    rw [acceptAll_of_not_mem hfirst] at hresult
    exact Evaluator.returns_of_evaluateAction (r := .error _) hresult

/-- A host function fails only where a number is divided by zero. -/
theorem dividesByZero_of_returns {action : String} {engine : EngineKey} {failure : Failure}
    (h : ev.Returns op.action inputs (.error (.executionFailed action engine failure))) :
    engineOf ev = native ∧ ∃ validated xs, op.action.validate .inward inputs = .ok validated ∧
      op.inlets.names.mapM validated.number = .ok xs ∧ DividesByZero op xs := by
  rcases hvalidate : op.action.validate .inward inputs with e | validated
  · have hinjected : op.action.validate .inward (ev.inject op.action inputs) = .error e := by
      rwa [inject_eq]
    obtain ⟨rfl⟩ := (Evaluator.returns_of_validate_error hinjected).unique h
    exact absurd hvalidate (Action.validate_ne_executionFailed _ _ _ _ _ _)
  · obtain ⟨ps, hlen, rfl⟩ := exists_given hvalidate
    rw [returns_given ev hlen hvalidate] at h
    by_cases hzero : DividesByZero op (ps.map Number.toFloat)
    · refine ⟨?_, _, _, rfl, mapM_number_given hlen, hzero⟩
      obtain ⟨rfl, -⟩ := hzero
      by_contra hengine
      have hc : Operation.quotient.callable? = some Arithmetic.quotient := rfl
      have hresult := result_of_not_mem hcatalog hc hlen
        (fun hmem => hengine (List.mem_singleton.1 hmem)) 0 0
      cases (Evaluator.returns_of_evaluateAction (r := .error _) hresult).unique h
    · exfalso
      by_cases haddTwo : op = .addTwo → engineOf ev ≠ composed
      · obtain ⟨results, hcomputes⟩ := exists_computes hlen
        obtain ⟨last, -, hresult⟩ :=
          result_of_computes (n := 0) (d := 0) hcatalog hlen hcomputes hzero haddTwo
        exact not_returns_executionFailed hresult _ _ _ h
      · obtain ⟨rfl, hcomposed⟩ := Classical.not_imp.1 haddTwo
        obtain ⟨p, rfl⟩ := List.length_eq_one_iff.1 hlen
        exact not_returns_executionFailed
          (result_addTwo (n := 0) (d := 0) hcatalog (not_not.1 hcomposed) p) _ _ _ h

end

end Arithmetic

open Arithmetic in
/-- The library is declared, and its actions are the operations. With inputs that the inlets of an
    operation accept, each read as a float, an evaluation goes through the results of the operation
    if the engine is native or none is named, unless it divides by zero, which fails. If the
    engine is the composed one, adding two goes through two increments, incrementing goes on as
    before, and everything else fails for the first plain operation; for any other engine
    everything does. No evaluation but the division by zero fails in a host function. -/
theorem library_computes :
    Program.library.result = .ok catalog ∧
    (∀ code a, catalog.action code = .ok a ↔ ∃ op : Operation, op.code = code ∧ op.action = a) ∧
    ∀ (config : Config) (context : Context) (op : Operation),
      let ev : Evaluator := ⟨catalog, config, context⟩
      (∀ inputs validated, op.action.validate .inward inputs = .ok validated →
        ∃ xs results, op.inlets.names.mapM validated.number = .ok xs ∧ Computes op xs results ∧
          (ev.engine? = none ∨ ev.engine? = some native →
            (DividesByZero op xs → ev.Returns op.action inputs
              (.error (.executionFailed "Division" native ⟨"division by zero"⟩))) ∧
            (¬DividesByZero op xs → GoesThrough ev op.action inputs results)) ∧
          (ev.engine? = some composed →
            (op = .addTwo → ∃ a, xs = [a] ∧
              GoesThrough ev op.action inputs [(.increment, a + 1), (.increment, a + 1 + 1)]) ∧
            (op = .increment ∨ op = .incrementTwice →
              GoesThrough ev op.action inputs results) ∧
            (op ≠ .addTwo → op ≠ .increment → op ≠ .incrementTwice →
              ∃ first, results.head? = some first ∧
                ev.Returns op.action inputs (.error (.unknownEngine first.1.code composed)))) ∧
          ∀ engine, ev.engine? = some engine → engine ≠ native → engine ≠ composed →
            ∃ first, results.head? = some first ∧
              ev.Returns op.action inputs (.error (.unknownEngine first.1.code engine))) ∧
      ∀ inputs action engine failure,
        ev.Returns op.action inputs (.error (.executionFailed action engine failure)) →
          (ev.engine? = none ∨ ev.engine? = some native) ∧
          ∃ validated xs, op.action.validate .inward inputs = .ok validated ∧
            op.inlets.names.mapM validated.number = .ok xs ∧ DividesByZero op xs := by
  refine ⟨library_result, fun code a => ⟨exists_operation, ?_⟩, fun config context op => ?_⟩
  · rintro ⟨op, rfl, rfl⟩
    exact catalog_action op
  intro ev
  have hcatalog : ev.catalog = catalog := rfl
  refine ⟨fun inputs validated h => ?_, fun inputs action engine failure h => ?_⟩
  · obtain ⟨ps, hlen, rfl⟩ := exists_given h
    obtain ⟨results, hcomputes⟩ := exists_computes hlen
    refine ⟨_, results, mapM_number_given hlen, hcomputes, fun hengine => ⟨fun hzero => ?_,
      fun hzero => ?_⟩, fun hengine => ⟨?_, fun hop => ?_, fun haddTwo hincrement htwice => ?_⟩,
      fun engine hengine hnative hcomposed => ?_⟩
    · have hnative : engineOf ev = native := engineOf_eq_native_iff.2 hengine
      exact (returns_given ev hlen h).2
        (Evaluator.returns_of_evaluateAction (n := 1) (d := 0) (r := .error _)
          (result_of_dividesByZero hcatalog hlen hzero hnative 0 0))
    · exact goesThrough_of_computes hcatalog (engineOf_eq_native_iff.2 hengine) hlen h hcomputes
        hzero (fun _ => by decide) hcomputes.native_mem
    · rintro rfl
      obtain ⟨p, rfl⟩ := List.length_eq_one_iff.1 hlen
      exact ⟨p.toFloat, rfl,
        goesThrough_addTwo hcatalog ((engineOf_eq_iff (by decide)).2 hengine) h⟩
    · have hzero : ¬DividesByZero op (ps.map Number.toFloat) := by
        rintro ⟨rfl, -⟩
        simp at hop
      have haddTwo : op = .addTwo → composed ≠ composed := by
        rintro rfl
        simp at hop
      exact goesThrough_of_computes hcatalog ((engineOf_eq_iff (by decide)).2 hengine) hlen h
        hcomputes hzero haddTwo (hcomputes.composed_mem hop)
    · exact returns_unknownEngine hcatalog ((engineOf_eq_iff (by decide)).2 hengine) hlen h
        hcomputes (fun h => absurd h haddTwo)
        (hcomputes.composed_not_mem haddTwo hincrement htwice)
    · exact returns_unknownEngine hcatalog ((engineOf_eq_iff hnative).2 hengine) hlen h hcomputes
        (fun _ => hcomposed) (hcomputes.not_mem hnative hcomposed)
  · obtain ⟨hengine, hzero⟩ := dividesByZero_of_returns hcatalog h
    exact ⟨engineOf_eq_native_iff.1 hengine, hzero⟩

namespace Arithmetic

/-- The library, evaluated in a context with settings. -/
def evaluatorWith (settings : List (String × Json)) : Evaluator :=
  ⟨catalog, .default, .ofSettings 0 settings⟩

/-- A text and a number, not in the order of the inlets. -/
def oneAndTwo : Record := .ofList [("b", .json (.number (.int 2))), ("a", .json (.string "1"))]

/-- A truth value and the text of a negative zero. -/
def trueAndZero : Record := .ofList [("a", .json (.bool true)), ("b", .json (.string "-0"))]

end Arithmetic

open Arithmetic in
/-- One less two is less one, and nothing is divided by zero. With the composed engine, adding two
    to seven gives nine, and with an unknown one the square of seven is not to be had. -/
theorem library_computes_numbers :
    (evaluatorWith []).Returns Operation.difference.action oneAndTwo (.ok (output (-1))) ∧
      (evaluatorWith []).Returns Operation.quotient.action trueAndZero
        (.error (.executionFailed "Division" native ⟨"division by zero"⟩)) ∧
      (evaluatorWith [("engine", .string "composed")]).Returns Operation.addTwo.action
        (given [.float 7]) (.ok (output 9)) ∧
      (evaluatorWith [("engine", .string "abacus")]).Returns Operation.square.action
        (given [.float 7]) (.error (.unknownEngine "Multi" ⟨"abacus"⟩)) := by
  have hcomputes (settings : List (String × Json)) (op : Operation) :=
    (library_computes.2.2 .default (.ofSettings 0 settings) op).1
  refine ⟨?_, ?_, ?_, ?_⟩
  · obtain ⟨xs, results, hxs, h, hnative, -⟩ :=
      hcomputes [] .difference oneAndTwo (given [.float 1, .int 2]) rfl
    cases h
    cases hxs
    have hgoes := (hnative (.inl rfl)).2 fun hzero => by cases hzero.1
    obtain ⟨last, hlast, hreturns⟩ := hgoes.finite (by decide)
    cases hlast
    exact hreturns
  · obtain ⟨xs, results, hxs, -, hnative, -⟩ :=
      hcomputes [] .quotient trueAndZero (given [.int 1, .float (-0)]) rfl
    cases hxs
    exact (hnative (.inl rfl)).1 ⟨rfl, _, _, rfl, .inr rfl⟩
  · obtain ⟨xs, results, hxs, h, -, hcomposed, -⟩ :=
      hcomputes [("engine", .string "composed")] .addTwo (given [.float 7]) _ rfl
    obtain ⟨a, rfl, hgoes⟩ := (hcomposed rfl).1 rfl
    cases hxs
    obtain ⟨last, hlast, hreturns⟩ := hgoes.finite (by decide)
    cases hlast
    have hsum : (Number.float 7).toFloat + 1 + 1 = 9 := by decide +kernel
    rwa [hsum] at hreturns
  · obtain ⟨xs, results, -, h, -, -, hother⟩ :=
      hcomputes [("engine", .string "abacus")] .square (given [.float 7]) _ rfl
    obtain ⟨first, hfirst, hreturns⟩ := hother ⟨"abacus"⟩ rfl (by decide) (by decide)
    cases h
    cases hfirst
    exact hreturns

end Dataflow
