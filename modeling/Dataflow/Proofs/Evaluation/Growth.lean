import Dataflow.Proofs.Catalog.Command
import Dataflow.Proofs.Evaluation.Composition

/-!
# Evaluations and growing catalogs

Registration disturbs nothing that works. The strategies of an action only ever grow at their
end (`Catalog.Grows`), so an action that has a strategy keeps it, under its engine and as the
first one (`Evaluator.chosen?_of_grows`). As this is so at every depth, an evaluation that does
not lack a strategy is the same, events included, in a catalog that has grown
(`Evaluator.evaluate_agreesUnless`); in particular it is after any commands
(`returns_after`).
-/

namespace Dataflow

namespace OrderedMap

variable {κ α : Type} [DecidableEq κ] {m n : OrderedMap κ α} {k : κ} {a : α}

/-- A value stays under its key when entries are added at the end. -/
theorem get?_of_isPrefix (h : m.entries <+: n.entries) (ha : m.get? k = some a) :
    n.get? k = some a :=
  get?_eq_some_iff.2 (h.subset (get?_eq_some_iff.1 ha))

omit [DecidableEq κ] in
/-- The first value stays the first when entries are added at the end. -/
theorem first?_of_isPrefix (h : m.entries <+: n.entries) (ha : m.first? = some a) :
    n.first? = some a := by
  obtain ⟨entry, hentry, rfl⟩ := Option.map_eq_some_iff.1 ha
  obtain ⟨rest, hrest⟩ := h
  rw [first?, ← hrest, List.head?_append, hentry]
  rfl

end OrderedMap

/-- The strategies of every action are those that it had, followed by new ones. -/
def Catalog.Grows (c c' : Catalog) : Prop :=
  ∀ code, (c.implementations.strategies code).entries <+:
    (c'.implementations.strategies code).entries

/-- Commands make a catalog grow, whether or not they succeed. -/
theorem Catalog.grows_after (c : Catalog) (commands : List Command) : c.Grows (c.after commands) :=
  fun code => ⟨_, (c.entries_strategies_after commands code).symm⟩

namespace Evaluator

variable {c c' : Catalog} {config : Config} {context : Context}

/-- The choice of a strategy stands when the catalog grows. -/
theorem chosen?_of_grows (h : c.Grows c') {a : Action} {s : Strategy}
    (hs : (Evaluator.mk c config context).chosen? a = some s) :
    (Evaluator.mk c' config context).chosen? a = some s := by
  have hentries : ((Evaluator.mk c config context).strategies a).entries <+:
      ((Evaluator.mk c' config context).strategies a).entries := h a.code
  have hengine : (Evaluator.mk c' config context).engine? =
      (Evaluator.mk c config context).engine? := rfl
  rw [chosen?] at hs ⊢
  rw [hengine]
  split at hs
  · exact OrderedMap.get?_of_isPrefix hentries hs
  · exact OrderedMap.first?_of_isPrefix hentries hs

/-- The evaluation fails for want of a strategy. -/
def LacksStrategy : Halt → Prop
  | .failed e => e.OfChoice
  | .tooDeep => False

theorem select_agreesUnless (h : c.Grows c') (d : Nat) (a : Action) :
    ((Evaluator.mk c config context).select d a).AgreesUnless LacksStrategy
      ((Evaluator.mk c' config context).select d a) := by
  intro hlacks
  cases hchoice : (Evaluator.mk c config context).chooseStrategy a with
  | ok s =>
    have hchoice' : (Evaluator.mk c' config context).chooseStrategy a = .ok s :=
      chooseStrategy_eq_ok_iff.2 (chosen?_of_grows h (chooseStrategy_eq_ok_iff.1 hchoice))
    rw [select, select, hchoice, hchoice']
  | error e =>
    -- This is excluded: every error of a choice is a lack of strategies.
    have herror : ((Evaluator.mk c config context).select d a).result = .error (.failed e) := by
      rw [result_select, hchoice]
      rfl
    exact absurd (ofChoice_of_chooseStrategy hchoice) (hlacks _ herror)

theorem alike_agreesUnless (h : c.Grows c') (d : Nat) :
    Alike (fun _ x y => x.AgreesUnless LacksStrategy y) ⟨c, config, context⟩
      ⟨c', config, context⟩ d d where
  congruence := Run.isCongruence_agreesUnless _
  context := rfl
  selection a := select_agreesUnless h d a
  executing _ _ _ _ := rfl
  inputs _ _ _ := rfl
  outputs _ _ _ := rfl

theorem evaluateAction_agreesUnless (h : c.Grows c') (n d : Nat) :
    RelatedNested (fun _ x y => x.AgreesUnless LacksStrategy y)
      ((Evaluator.mk c config context).evaluateAction n d)
      ((Evaluator.mk c' config context).evaluateAction n d) := by
  induction n generalizing d with
  | zero => exact fun _ _ _ => rfl
  | succ n ih => exact (alike_agreesUnless h d).evaluateAction_succ (ih (d + 1))

/-- An evaluation that does not lack a strategy is the same when the catalog has grown. -/
theorem evaluate_agreesUnless (h : c.Grows c') (limit : Nat) (a : Action) (inputs : Record) :
    ((Evaluator.mk c config context).evaluate limit a inputs).AgreesUnless LacksStrategy
      ((Evaluator.mk c' config context).evaluate limit a inputs) := by
  have hcongruence := Run.isCongruence_agreesUnless LacksStrategy
  refine hcongruence.bind (fun _ => rfl) fun _ => ?_
  refine hcongruence.bind (evaluateAction_agreesUnless h limit 0 a inputs) fun outputs => ?_
  exact hcongruence.bind (fun _ => rfl) fun _ => hcongruence.refl rfl

end Evaluator

/-- An evaluation that returns anything but the lack of a strategy returns the same after any
    commands, some of which may fail: the same outputs in the same order, or the same error. -/
theorem returns_after {c : Catalog} (commands : List Catalog.Command) {config : Config}
    {context : Context} {a : Action} {inputs : Record} {r : Except Error Record}
    (hreturns : (Evaluator.mk c config context).Returns a inputs r)
    (hnone : ∀ code, r ≠ .error (.noImplementation code))
    (hengine : ∀ code engine, r ≠ .error (.unknownEngine code engine)) :
    (Evaluator.mk (c.after commands) config context).Returns a inputs r := by
  obtain ⟨limit, hlimit⟩ := hreturns
  have hlacks : ∀ halt, ((Evaluator.mk c config context).evaluate limit a inputs).result =
      .error halt → ¬Evaluator.LacksStrategy halt := by
    intro halt hhalt
    rw [hlimit] at hhalt
    cases r with
    | ok outputs => cases hhalt
    | error e =>
      obtain rfl : Halt.failed e = halt := Except.error.inj hhalt
      intro hchoice
      cases e with
      | noImplementation code => exact hnone code rfl
      | unknownEngine code engine => exact hengine code engine rfl
      | _ => exact hchoice
  refine ⟨limit, ?_⟩
  rw [Evaluator.evaluate_agreesUnless (c.grows_after commands) limit a inputs hlacks, hlimit]

namespace Relay

/-- Commands that declare an echo twice, which is refused, register strategies for it, one of
    them for an engine that has one, which is refused as well, and build the relay. -/
def additions : List Catalog.Command :=
  [.declare "Echo" [⟨"a", .any⟩] [⟨"res", .any⟩], .declare "Echo" [] [],
    .implement echo engine pair, .implement echo spare pair,
    .build 0 "Relay" [⟨"a", .any⟩] [⟨"res", .any⟩] builder]

end Relay

/-- The relay still returns what it did when there is another strategy for its first step. -/
theorem returns_after_relay :
    Relay.evaluator.Returns Relay.relay (Relay.single "a" (.bool true))
      (.ok (Relay.single "res" (.array [.bool true, .null]))) ∧
    (Relay.catalog.after Relay.additions).implementations.engines "Echo" =
      [Relay.engine, Relay.spare] ∧
    (Evaluator.mk (Relay.catalog.after Relay.additions) .default (.ofSettings 0 [])).Returns
      Relay.relay (Relay.single "a" (.bool true))
      (.ok (Relay.single "res" (.array [.bool true, .null]))) :=
  ⟨Relay.returns, rfl,
    returns_after Relay.additions Relay.returns (fun _ h => nomatch h) fun _ _ h => nomatch h⟩

end Dataflow
