import Dataflow.Program
import Dataflow.Proofs.CommandLine
import Dataflow.Proofs.Evaluation.Composition
import Dataflow.Proofs.Evaluation.Inputs

/-!
# The inputs of the program

The inputs that the program is given on its command line are those of the evaluation that it
carries out, so they matter by their last values as well: an input that is given again later counts
as if it had been given only then, and inputs of different names may be given in any order.
-/

namespace Dataflow.Program

open CommandLine

/-- The inputs of an evaluation for those that the program was given. -/
def collected (inputs : List (String × Json)) : Record :=
  .ofList (inputs.map fun (name, j) => (name, .json j))

/-- An action of the library refuses the inputs that the program was given for their names, with
    problems that differ in the order of the names that no inlet has. -/
inductive RefusedAlike (code : String) (inputs inputs' : List (String × Json)) :
    Problem → Problem → Prop
  | evaluation {ev : Evaluator} {a : Action} {halt halt' : Halt}
    (hlibrary : library.result = .ok ev.catalog) (ha : ev.catalog.action code = .ok a)
    (h : ev.RefusedAlike a (collected inputs) (collected inputs') halt halt') :
    RefusedAlike code inputs inputs' (.evaluation code halt) (.evaluation code halt')

/-- Two outcomes are the same, or problems that are related are all that they differ in. -/
def Outcome.SameUpTo (R : Problem → Problem → Prop) (o o' : Outcome) : Prop :=
  o = o' ∨ ∃ p p', R p p' ∧ o.problem = some p ∧ o' = { o with problem := some p' }

/-- What the program prints and its exit code are the same. -/
theorem Outcome.SameUpTo.printed_eq {R : Problem → Problem → Prop} {o o' : Outcome}
    (h : o.SameUpTo R o') : (o.code, o.output) = (o'.code, o'.output) := by
  rcases h with rfl | ⟨_, _, -, -, rfl⟩ <;> rfl

variable {code : String} {inputs inputs' : List (String × Json)}

/-- The outermost text does not tell such problems apart. -/
theorem RefusedAlike.text_eq {p p' : Problem} (h : RefusedAlike code inputs inputs' p p') :
    p.text = p'.text := by
  obtain ⟨-, -, ⟨-, -, -⟩⟩ := h
  rfl

/-- The evaluation of an action of the library knows its inputs by their last values. -/
theorem evaluate_of_sameLast {catalog : Catalog} (hlibrary : library.result = .ok catalog)
    (options : EngineOptions) (code : String) (h : SameLast inputs inputs') :
    (evaluate catalog options code inputs).SameUpTo (RefusedAlike code inputs inputs')
      (evaluate catalog options code inputs') := by
  refine .bind_left fun a ha => .bind_left fun config _ => .bind (.mapError
    (Evaluator.evaluate_of_sameLast _ a (h.map Value.json) depthLimit)
    fun halt halt' hrefused => .evaluation hlibrary ?_ hrefused) _
  exact Except.mapError_eq_ok.1 ha

/-- What comes before the evaluation of an action does not read the inputs. -/
theorem ofCommand_of_sameLast (engine : EngineOptions) (log : LogOptions) (code : String)
    (h : SameLast inputs inputs') :
    (Outcome.ofCommand ⟨engine, log, .run code inputs⟩).SameUpTo (RefusedAlike code inputs inputs')
      (Outcome.ofCommand ⟨engine, log, .run code inputs'⟩) := by
  have hcarried : (carryOut ⟨engine, log, .run code inputs⟩).SameUpTo
      (RefusedAlike code inputs inputs') (carryOut ⟨engine, log, .run code inputs'⟩) :=
    .bind_left fun _ _ => .bind_left fun _ _ => .bind_left fun catalog hlibrary =>
      evaluate_of_sameLast hlibrary engine code h
  rw [Outcome.ofCommand, Outcome.ofCommand]
  rcases hcarried with heq | ⟨hevents, p, p', hrefused, hp, hp'⟩
  · exact .inl (by rw [heq])
  · rw [hp, hp']
    refine .inr ⟨p, p', hrefused, rfl, ?_⟩
    dsimp only
    rw [hevents, hrefused.text_eq]

/-- The invocation of an evaluation, by the options in front of the command and the arguments after
    it. -/
theorem ofArguments_run {front args texts : List String} {given : Given} {pending : Pending Given}
    (environment : String → Option String)
    (hfront : grammar.scan (front ++ ["run"]) .nothing .nothing =
      .ok ⟨given, pending, some ("run", [])⟩)
    (hargs : Writes (some code) texts args) (hinputs : texts.mapM readInput = .ok inputs) :
    Invocation.ofArguments environment (front ++ "run" :: args) =
      (pending.settle given >>= fun given => given.fill environment) >>= fun given =>
        .ok ⟨given.engineOptions, given.logOptions, .run code inputs⟩ := by
  have hscan := Grammar.scan_append hfront rfl args
  have hread : readCommand "run" args = .ok (.run code inputs) := by
    show readRun args = _
    rw [readRun_of_writes hargs, hinputs]
    rfl
  rw [List.append_assoc] at hscan
  rw [Invocation.ofArguments, ← List.singleton_append, hscan]
  show (readCommand "run" args >>= fun command => pure (some command)) >>= _ = _
  rw [hread, bind_assoc (pending.settle given)]
  rfl

/-- An evaluation depends on its inputs by their last values only. Lists of pairs with the same last
    value for every name, collected to the inputs of an action, lead to the same run, events
    included, unless the action refuses both for their names, with errors that differ in the order
    of the names that it does not have. So the program, run on arguments that ask for an evaluation
    and give inputs in any way and order, has the same outcome for inputs with the same last
    values, unless they are refused in this way. -/
theorem inputs_count_by_last_values :
    (∀ (ev : Evaluator) (a : Action) (l l' : List (String × Value)), SameLast l l' → ∀ limit,
      (ev.evaluate limit a (.ofList l)).SameUpTo (ev.RefusedAlike a (.ofList l) (.ofList l'))
        (ev.evaluate limit a (.ofList l'))) ∧
    (∀ environment args args' engine log code inputs inputs',
      Invocation.ofArguments environment args = .ok ⟨engine, log, .run code inputs⟩ →
      Invocation.ofArguments environment args' = .ok ⟨engine, log, .run code inputs'⟩ →
      SameLast inputs inputs' →
        (Outcome.ofArguments environment args).SameUpTo (RefusedAlike code inputs inputs')
          (Outcome.ofArguments environment args')) ∧
    ∀ environment front given pending,
      grammar.scan (front ++ ["run"]) .nothing .nothing =
        .ok ⟨given, pending, some ("run", [])⟩ →
      ∀ code texts texts' args args' inputs inputs',
        Writes (some code) texts args → texts.mapM readInput = .ok inputs →
        Writes (some code) texts' args' → texts'.mapM readInput = .ok inputs' →
        SameLast inputs inputs' →
          (Outcome.ofArguments environment (front ++ "run" :: args)).SameUpTo
            (RefusedAlike code inputs inputs')
            (Outcome.ofArguments environment (front ++ "run" :: args')) := by
  refine ⟨fun ev a l l' => ev.evaluate_of_sameLast a, ?_, ?_⟩
  · intro environment args args' engine log code inputs inputs' hargs hargs' h
    rw [Outcome.ofArguments, Outcome.ofArguments, hargs, hargs']
    exact ofCommand_of_sameLast engine log code h
  · intro environment front given pending hfront code texts texts' args args' inputs inputs' hargs
      hinputs hargs' hinputs' h
    rw [Outcome.ofArguments, Outcome.ofArguments, ofArguments_run environment hfront hargs hinputs,
      ofArguments_run environment hfront hargs' hinputs']
    -- The options in front of the command are refused or they are the same.
    cases pending.settle given >>= fun given => given.fill environment with
    | error e => exact .inl rfl
    | ok given => exact ofCommand_of_sameLast _ _ code h

/-- The sum of three and two is asked for in one of the ways. -/
theorem printed_sum :
    let outcome := Outcome.ofArguments (fun _ => none)
      ["run", "-i=a=3", "Sum", "--input", "b=2"]
    (outcome.code, outcome.output) = (0, "\x7b\n  \"res\": 5.0\n\x7d\n") := by
  decide +kernel

/-- The sum of `3` and `2` is asked for in two ways. In the first, one of the summands is given
    twice; it counts as if it had been given the second time only, so that `5` is printed. -/
theorem inputs_count_by_last_values_sum :
    (∀ limit,
      let twice : List (String × Value) := [("a", .json .null), ("a", .json (.bool true))]
      let once : List (String × Value) := [("a", .json (.bool true))]
      (Relay.evaluator.evaluate limit Relay.relay (.ofList twice)).SameUpTo
        (Relay.evaluator.RefusedAlike Relay.relay (.ofList twice) (.ofList once))
        (Relay.evaluator.evaluate limit Relay.relay (.ofList once))) ∧
    (∀ environment,
      let number (n : Int) : Json := .number (.int n)
      (Outcome.ofArguments environment
          ["run", "-i", "a=1", "Sum", "--input=b=2", "-ia=3"]).SameUpTo
        (RefusedAlike "Sum" [("a", number 1), ("b", number 2), ("a", number 3)]
          [("a", number 3), ("b", number 2)])
        (Outcome.ofArguments environment ["run", "-i=a=3", "Sum", "--input", "b=2"])) ∧
    let outcome := Outcome.ofArguments (fun _ => none)
      ["run", "-i", "a=1", "Sum", "--input=b=2", "-ia=3"]
    (outcome.code, outcome.output) = (0, "\x7b\n  \"res\": 5.0\n\x7d\n") := by
  obtain ⟨hevaluate, -, harguments⟩ := inputs_count_by_last_values
  have hsum (environment : String → Option String) :
      let number (n : Int) : Json := .number (.int n)
      (Outcome.ofArguments environment
          ["run", "-i", "a=1", "Sum", "--input=b=2", "-ia=3"]).SameUpTo
        (RefusedAlike "Sum" [("a", number 1), ("b", number 2), ("a", number 3)]
          [("a", number 3), ("b", number 2)])
        (Outcome.ofArguments environment ["run", "-i=a=3", "Sum", "--input", "b=2"]) := by
    -- No options stand before the command, and the inputs are given in all five spellings.
    refine harguments environment [] _ _ rfl "Sum" ["a=1", "b=2", "a=3"] ["a=3", "b=2"] _ _ _ _
      (.input (.shortNext rfl) (.code rfl (.input .long (.input (.short rfl) .nil)))) rfl
      (.input .shortEquals (.code rfl (.input (.longNext rfl) .nil))) rfl ?_
    exact OrderedMap.perm_ofList_iff.1 (.refl _)
  exact ⟨hevaluate _ _ _ _ (OrderedMap.perm_ofList_iff.1 (.refl _)), hsum,
    (hsum fun _ => none).printed_eq.trans printed_sum⟩

end Dataflow.Program
