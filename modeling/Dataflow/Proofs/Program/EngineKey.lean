import Dataflow.Proofs.Arithmetic
import Dataflow.Proofs.Arithmetic.Calls
import Dataflow.Proofs.Program

/-!
# The name of the engine setting

The options name a setting of the context, and an engine to put there. What counts is the engine:
the context of the options carries it under the very setting that their configuration reads
(`CommandLine.EngineOptions.engine?_context`), and actions of the library do not see the context. So
evaluations under two names of the setting, neither of them blank, have the same result, which is
that of the default configuration in a context that asks for the engine, and the program ends with
it (`Program.ending`). With a blank name there is no configuration, and nothing is evaluated.
-/

namespace Dataflow

open Arithmetic

/-- A text is empty or white space. -/
def Text.AllBlank (s : String) : Prop := ∀ c ∈ s.toList, isBlank c = true

instance (s : String) : Decidable (Text.AllBlank s) :=
  List.decidableBAll (fun c => Text.isBlank c = true) s.toList

namespace CommandLine.EngineOptions

variable {options : EngineOptions}

theorem config_of_not_allBlank (h : ¬Text.AllBlank options.engineKey) :
    options.config = .ok ⟨options.engineKey, options.traceValues⟩ := by
  have htrim : (Text.trimChars options.engineKey.toList).isEmpty = false :=
    Bool.eq_false_iff.2 fun hempty => h (Text.trimChars_eq_nil_iff.1 (List.isEmpty_iff.1 hempty))
  rw [config, Config.ofOptions, htrim]
  rfl

theorem config_of_allBlank (h : Text.AllBlank options.engineKey) :
    options.config = .error .blankEngineKey := by
  have htrim : (Text.trimChars options.engineKey.toList).isEmpty = true :=
    List.isEmpty_iff.2 (Text.trimChars_eq_nil_iff.2 h)
  rw [config, Config.ofOptions, htrim]
  rfl

theorem setting?_context (options : EngineOptions) (identity : Identity) :
    (options.context identity).setting? options.engineKey = options.engine.map Json.string := by
  rw [context, Context.setting?]
  rcases options.engine with - | engine
  · rfl
  · exact (OrderedMap.get?_insert _ _ _ _).trans (if_pos rfl)

/-- The configuration of the options reads the engine that the context of the options carries. -/
theorem engine?_context (options : EngineOptions) (catalog : Catalog) (traceValues : Bool)
    (identity : Identity) :
    (Evaluator.mk catalog ⟨options.engineKey, traceValues⟩ (options.context identity)).engine? =
      options.engine.map EngineKey.mk := by
  rw [Evaluator.engine?, Context.engineUnder?, setting?_context]
  cases options.engine <;> rfl

end CommandLine.EngineOptions

namespace Program

open CommandLine

/-- The context that asks for an engine by the default setting, or for none. -/
def asking (identity : Identity) : Option String → Context
  | none => .ofSettings identity []
  | some engine => (Context.ofSettings identity []).withEngine identity ⟨engine⟩

theorem engine?_asking (catalog : Catalog) (identity : Identity) (engine : Option String) :
    (Evaluator.mk catalog .default (asking identity engine)).engine? =
      engine.map EngineKey.mk := by
  rcases engine with - | engine
  · rfl
  · rfl

variable {o o' : EngineOptions} {code : String} {inputs : List (String × Json)}

/-- The evaluation of an action of the library has one result for all names of the setting that are
    not blank. -/
theorem exists_result_of_engine (engine : Option String) {a : Action}
    (ha : catalog.action code = .ok a) (inputs : Record) :
    ∃ r : Except Error Record,
      (∀ o : EngineOptions, o.engine = engine → ¬Text.AllBlank o.engineKey →
        ∃ config, o.config = .ok config ∧ ∀ identity limit, depthLimit ≤ limit →
          ((Evaluator.mk catalog config (o.context identity)).evaluate limit a inputs).result =
            r.mapError .failed) ∧
      ∀ identity limit, depthLimit ≤ limit →
        ((Evaluator.mk catalog .default (asking identity engine)).evaluate limit a inputs).result =
          r.mapError .failed := by
  obtain ⟨op, -, rfl⟩ := exists_operation ha
  have hcatalog : (Evaluator.mk catalog .default (asking 0 engine)).catalog = catalog := rfl
  obtain ⟨r, hr⟩ := result_of_depthLimit_le hcatalog op inputs
  have hsame (ev : Evaluator) (hcatalog : ev.catalog = catalog)
      (hengine : ev.engine? = engine.map EngineKey.mk) (limit : Nat) (hlimit : depthLimit ≤ limit) :
      (ev.evaluate limit op.action inputs).result = r.mapError .failed := by
    have hchoices : ev.SameChoices ⟨catalog, .default, asking 0 engine⟩ :=
      ⟨hcatalog, hengine.trans (engine?_asking catalog 0 engine).symm⟩
    rw [Evaluator.evaluate_congr_of_hidesContext hchoices (hcatalog ▸ hidesContext op)]
    exact hr limit hlimit
  refine ⟨r, fun o hengine hkey => ?_,
    fun identity => hsame _ rfl (engine?_asking catalog identity engine)⟩
  refine ⟨_, EngineOptions.config_of_not_allBlank hkey, fun identity => ?_⟩
  exact hsame _ rfl ((o.engine?_context _ _ _).trans (congrArg _ hengine))

/-- The program prints what an evaluation of an action gives, or says why it fails. -/
theorem result_evaluate {config : Config} {a : Action} {r : Except Error Record}
    (hconfig : o.config = .ok config) (ha : catalog.action code = .ok a)
    (h : ((Evaluator.mk catalog config (o.context 0)).evaluate depthLimit a
      (collected inputs)).result = r.mapError .failed) :
    (evaluate catalog o code inputs).result =
      (r.mapError fun e => .evaluation code (.failed e)).map
        fun outputs => outputs.toJson.prettyText ++ "\n" := by
  rw [evaluate, ha, hconfig]
  show (Run.mapError _ _ >>= _).result = _
  rw [Run.result_bind]
  show (Except.mapError (Problem.evaluation code) ((Evaluator.mk catalog config
    (o.context 0)).evaluate depthLimit a (collected inputs)).result >>= _) = _
  rw [h]
  cases r <;> rfl

/-- A code that no action has is refused before the options are looked at. -/
theorem result_evaluate_of_unknown (o : EngineOptions) {e : Error}
    (h : catalog.action code = .error e) (inputs : List (String × Json)) :
    (evaluate catalog o code inputs).result = .error (.unknownAction e) := by
  rw [evaluate, h]
  rfl

/-- Evaluations for the same engine, under names of the setting that are not blank, have the same
    result. -/
theorem result_evaluate_congr (hengine : o.engine = o'.engine)
    (hkey : ¬Text.AllBlank o.engineKey) (hkey' : ¬Text.AllBlank o'.engineKey) (code : String)
    (inputs : List (String × Json)) :
    (evaluate catalog o code inputs).result = (evaluate catalog o' code inputs).result := by
  rcases ha : catalog.action code with e | a
  · rw [result_evaluate_of_unknown o ha, result_evaluate_of_unknown o' ha]
  · obtain ⟨r, hr, -⟩ := exists_result_of_engine o'.engine ha (collected inputs)
    obtain ⟨config, hconfig, hresult⟩ := hr o hengine hkey
    obtain ⟨config', hconfig', hresult'⟩ := hr o' rfl hkey'
    rw [result_evaluate hconfig ha (hresult 0 depthLimit (Nat.le_refl _)),
      result_evaluate hconfig' ha (hresult' 0 depthLimit (Nat.le_refl _))]

/-- The command comes to the evaluation, with the options and the build reported before it. -/
theorem result_carryOut (o : EngineOptions) (log : LogOptions) (code : String)
    (inputs : List (String × Json)) :
    (carryOut ⟨o, log, .run code inputs⟩).result = (evaluate catalog o code inputs).result := by
  rw [carryOut]
  simp only [Run.result_bind, library_result, Run.result_log]
  rfl

theorem evaluate_of_allBlank (hkey : Text.AllBlank o.engineKey) {a : Action}
    (ha : catalog.action code = .ok a) (inputs : List (String × Json)) :
    evaluate catalog o code inputs = .fail (.configuration .blankEngineKey) := by
  rw [evaluate, ha, EngineOptions.config_of_allBlank hkey]
  rfl

/-- How the program ends is known from the result of the evaluation. -/
theorem ofCommand_congr (log : LogOptions)
    (h : (evaluate catalog o code inputs).result = (evaluate catalog o' code inputs).result) :
    let outcome := Outcome.ofCommand ⟨o, log, .run code inputs⟩
    let outcome' := Outcome.ofCommand ⟨o', log, .run code inputs⟩
    outcome.code = outcome'.code ∧ outcome.output = outcome'.output ∧
      outcome.problem = outcome'.problem := by
  rw [← result_carryOut o log, ← result_carryOut o' log] at h
  rw [Outcome.ofCommand, Outcome.ofCommand, h]
  cases (carryOut ⟨o', log, .run code inputs⟩).result <;> exact ⟨rfl, rfl, rfl⟩

/-- What the program ends with for the result of an evaluation: its exit code, what goes to the
    standard output, and what went wrong. -/
def ending (code : String) : Except Error Record → Nat × String × Option Problem
  | .ok outputs => (0, outputs.toJson.prettyText ++ "\n", none)
  | .error e => (1, "", some (.evaluation code (.failed e)))

/-- The program ends with what it prints. -/
theorem ofCommand_eq_ending (log : LogOptions) {r : Except Error Record}
    (h : (evaluate catalog o code inputs).result =
      (r.mapError fun e => .evaluation code (.failed e)).map
        fun outputs => outputs.toJson.prettyText ++ "\n") :
    let outcome := Outcome.ofCommand ⟨o, log, .run code inputs⟩
    (outcome.code, outcome.output, outcome.problem) = ending code r := by
  rw [← result_carryOut o log] at h
  rw [Outcome.ofCommand, h]
  cases r <;> rfl

end Program

open Program CommandLine in
/-- The name of the engine setting is immaterial. For every engine, or none, and every code, the
    evaluation of the action with that code in the library gives the same outputs or the same error
    with the configuration and the context of all options whose name for the setting is not blank,
    and with the default configuration in a context that asks for the engine. That is what the
    program prints, or why it fails, for all such names, so that it ends in the same way for all of
    them; it also does if there is no action with the code. If the name is blank, it fails for the
    configuration, with nothing evaluated. -/
theorem engine_key_is_immaterial :
    library.result = .ok catalog ∧
    ∀ (engine : Option String) (code : String),
      (∀ a, catalog.action code = .ok a → ∀ inputs : Record, ∃ r : Except Error Record,
        (∀ o : EngineOptions, o.engine = engine → ¬Text.AllBlank o.engineKey →
          ∃ config, o.config = .ok config ∧ ∀ identity limit, depthLimit ≤ limit →
            ((Evaluator.mk catalog config (o.context identity)).evaluate limit a inputs).result =
              r.mapError .failed) ∧
        (∀ identity limit, depthLimit ≤ limit →
          ((Evaluator.mk catalog .default (asking identity engine)).evaluate limit a inputs).result
            = r.mapError .failed) ∧
        ∀ o : EngineOptions, o.engine = engine → ¬Text.AllBlank o.engineKey →
          ∀ given, collected given = inputs →
            (evaluate catalog o code given).result =
              (r.mapError fun e => .evaluation code (.failed e)).map
                (fun outputs => outputs.toJson.prettyText ++ "\n") ∧
            ∀ log,
              let outcome := Outcome.ofCommand ⟨o, log, .run code given⟩
              (outcome.code, outcome.output, outcome.problem) = ending code r) ∧
      (∀ e, catalog.action code = .error e → ∀ (o : EngineOptions) inputs,
        (evaluate catalog o code inputs).result = .error (.unknownAction e)) ∧
      ∀ inputs : List (String × Json),
        (∀ o o' : EngineOptions, o.engine = engine → o'.engine = engine →
          ¬Text.AllBlank o.engineKey → ¬Text.AllBlank o'.engineKey →
            (evaluate catalog o code inputs).result = (evaluate catalog o' code inputs).result ∧
            ∀ log,
              let outcome := Outcome.ofCommand ⟨o, log, .run code inputs⟩
              let outcome' := Outcome.ofCommand ⟨o', log, .run code inputs⟩
              outcome.code = outcome'.code ∧ outcome.output = outcome'.output ∧
                outcome.problem = outcome'.problem) ∧
        ∀ o : EngineOptions, o.engine = engine → Text.AllBlank o.engineKey →
          o.config = .error .blankEngineKey ∧
          ∀ a, catalog.action code = .ok a →
            evaluate catalog o code inputs = .fail (.configuration .blankEngineKey) := by
  refine ⟨library_result, fun engine code => ⟨fun a ha inputs => ?_,
    fun e he o inputs => result_evaluate_of_unknown o he inputs, fun inputs => ⟨?_, ?_⟩⟩⟩
  · obtain ⟨r, hr, hdefault⟩ := exists_result_of_engine engine ha inputs
    refine ⟨r, hr, hdefault, fun o hengine hkey given hgiven => ?_⟩
    -- The program is one of the evaluations that have this result: with identity 0, at its limit.
    obtain ⟨config, hconfig, hresult⟩ := hr o hengine hkey
    have hprinted := result_evaluate hconfig ha (hgiven ▸ hresult 0 depthLimit (Nat.le_refl _))
    exact ⟨hprinted, fun log => ofCommand_eq_ending log hprinted⟩
  · intro o o' hengine hengine' hkey hkey'
    have hresult := result_evaluate_congr (hengine.trans hengine'.symm) hkey hkey' code inputs
    exact ⟨hresult, fun log => ofCommand_congr log hresult⟩
  · intro o _ hkey
    exact ⟨EngineOptions.config_of_allBlank hkey, fun a ha => evaluate_of_allBlank hkey ha inputs⟩

namespace Program

/-- Seven, for the inlet of an operation on one number. -/
def seven : List (String × Json) := [("a", .number (.int 7))]

/-- Two is added to seven by incrementing twice. -/
theorem result_addTwo_seven :
    ((Evaluator.mk catalog .default (asking 0 (some "composed"))).evaluate depthLimit
      Operation.addTwo.action (collected seven)).result = .ok (output 9) := by
  have hcatalog : (Evaluator.mk catalog .default (asking 0 (some "composed"))).catalog = catalog :=
    rfl
  have hcomposed : engineOf (Evaluator.mk catalog .default (asking 0 (some "composed"))) =
      composed := rfl
  have hsum : (Number.int 7).toFloat + 1 + 1 = 9 := by decide +kernel
  rw [Evaluator.evaluate_result]
  refine (result_addTwo hcatalog hcomposed (.int 7)).trans ?_
  rw [acceptAll_of_finite, hsum]
  · rfl
  · rw [hcomposed]
    decide
  · decide +kernel

/-- Nine, as it is printed. -/
theorem prettyText_nine :
    (output 9).toJson.prettyText ++ "\n" = "\x7b\n  \"res\": 9.0\n\x7d\n" := by
  decide +kernel

end Program

open Program CommandLine in
/-- Two is added to seven by the composed engine, whether it is named by the default setting or by
    one with white space around it, and the program prints nine; with a tabulator for the name,
    there is no configuration. -/
theorem engine_key_is_immaterial_composed :
    let spaced : EngineOptions := ⟨some "composed", " strategy ", true⟩
    let usual : EngineOptions := ⟨some "composed", "engine", false⟩
    let outcome := Outcome.ofCommand ⟨spaced, ⟨.text⟩, .run "AddTwo" seven⟩
    (∃ config, spaced.config = .ok config ∧
      ((Evaluator.mk catalog config (spaced.context 0)).evaluate depthLimit
        Operation.addTwo.action (collected seven)).result = .ok (output 9)) ∧
    (evaluate catalog spaced "AddTwo" seven).result =
      (evaluate catalog usual "AddTwo" seven).result ∧
    (outcome.code, outcome.output, outcome.problem) =
      (0, "\x7b\n  \"res\": 9.0\n\x7d\n", none) ∧
    evaluate catalog ⟨some "composed", "\t", false⟩ "AddTwo" seven =
      .fail (.configuration .blankEngineKey) := by
  intro spaced usual outcome
  have hspaced : ¬Text.AllBlank " strategy " := by decide
  have husual : ¬Text.AllBlank "engine" := by decide
  have htabulator : Text.AllBlank "\t" := by decide
  obtain ⟨-, h⟩ := engine_key_is_immaterial
  obtain ⟨hresults, -, hprogram⟩ := h (some "composed") "AddTwo"
  have haddTwo : catalog.action "AddTwo" = .ok Operation.addTwo.action :=
    catalog_action .addTwo
  obtain ⟨r, hr, hdefault, hprinted⟩ := hresults _ haddTwo (collected seven)
  obtain ⟨config, hconfig, hresult⟩ := hr spaced rfl hspaced
  have hnine : r = .ok (output 9) := Halt.mapError_failed_inj.1
    ((hdefault 0 depthLimit (Nat.le_refl _)).symm.trans result_addTwo_seven)
  refine ⟨⟨config, hconfig, ?_⟩, ?_, ?_, ?_⟩
  · rw [hresult 0 depthLimit (Nat.le_refl _), hnine]
    rfl
  · exact ((hprogram seven).1 spaced usual rfl rfl hspaced husual).1
  · have hending := (hprinted spaced rfl hspaced seven rfl).2 ⟨.text⟩
    rwa [hnine, ending, prettyText_nine] at hending
  · exact ((hprogram seven).2 _ rfl htabulator).2 _ haddTwo

end Dataflow
