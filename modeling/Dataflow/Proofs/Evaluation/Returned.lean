import Dataflow.Proofs.Action.Acceptance
import Dataflow.Proofs.Action.Revalidation
import Dataflow.Proofs.Evaluation.Composition
import Dataflow.Proofs.Evaluation.Visits

/-!
# What host functions return

A host function returns its results by position, as nothing, as one value or as a sequence, or by
the names of the outlets. Results by position are counted first (`Returned.toOutputs`), and then
they are the results by name that list them in the order of the outlets; results by name are
compared with the names of the outlets when they are validated. So there is one way for each shape
to be refused, and no difference between those that are not: an action is evaluated to the same,
outputs or the error of a type, whether its callable returns values by position or by name, in any
order.

* `Evaluator.Yields`: an evaluation calls a host function, which returns something.
* `Evaluator.Yields.returns`: what the evaluation returns for it.
* `returned_shapes`: the shapes compared.
-/

namespace Dataflow

/-- The values that are returned by position. -/
def Returned.positional? : Returned → Option (List Value)
  | nothing => some []
  | single v => some [v]
  | sequence vs => some vs
  | named _ => none

namespace Action

variable {a : Action} {r : Record} {vs : List Value}

/-- No value passes through no outlets. -/
theorem validate_empty (h : a.outlets.size = 0) : a.validate .outward ∅ = .ok ∅ := by
  have hports : a.outlets.parameters = [] := List.length_eq_zero_iff.1 h
  refine validate_of_fixed ?_ fun p hp => ?_
  · show _ = a.outlets.parameters.map Parameter.name
    rw [hports]
    rfl
  · change p ∈ a.outlets.parameters at hp
    rw [hports] at hp
    cases hp

/-- A record holds values under the names of the outlets, the first value under the first name and
    so on; it may list them in any order. -/
def Holds (a : Action) (vs : List Value) (r : Record) : Prop :=
  vs.length = a.outlets.size ∧ r.entries.Perm (a.outlets.names.zip vs)

theorem map_fst_zip_outlets (h : vs.length = a.outlets.size) :
    (a.outlets.names.zip vs).map Prod.fst = a.outlets.names :=
  List.map_fst_zip (by rw [Ports.length_names, h])

/-- The record that lists values in the order of the outlets. -/
theorem entries_ofList_zip (h : vs.length = a.outlets.size) :
    (OrderedMap.ofList (a.outlets.names.zip vs)).entries = a.outlets.names.zip vs := by
  refine OrderedMap.entries_ofList ?_
  rw [map_fst_zip_outlets h]
  exact a.outlets.nodup

theorem Holds.named (h : a.Holds vs r) : a.Named .outward r := fun name => by
  rw [OrderedMap.keys, (h.2.map Prod.fst).mem_iff, map_fst_zip_outlets h.1]
  rfl

theorem holds_ofList_zip (h : vs.length = a.outlets.size) :
    a.Holds vs (.ofList (a.outlets.names.zip vs)) :=
  ⟨h, by rw [entries_ofList_zip h]⟩

end Action

namespace Returned

variable {a : Action} {returned : Returned} {vs : List Value}

/-- An action without outlets has no outputs, whatever is returned. -/
theorem toOutputs_of_size_eq_zero (h : a.outlets.size = 0) (returned : Returned) :
    returned.toOutputs a = .ok ∅ :=
  if_pos h

/-- Values that are returned by position are counted. -/
theorem toOutputs_of_positional (hoccupied : a.outlets.size ≠ 0)
    (h : returned.positional? = some vs) :
    returned.toOutputs a =
      if vs.length = a.outlets.size then .ok (.ofList (a.outlets.names.zip vs))
      else .error (.resultCountMismatch a.code a.outlets.size vs.length) := by
  rw [toOutputs, if_neg hoccupied]
  cases returned with
  | named r => cases h
  | nothing | single v | sequence vs' => exact Option.some.inj h ▸ rfl

/-- Values that are returned by name are taken as they are. -/
theorem toOutputs_named (hoccupied : a.outlets.size ≠ 0) (r : Record) :
    (named r).toOutputs a = .ok r :=
  if_neg hoccupied

end Returned

namespace Evaluator

variable {ev : Evaluator} {a : Action} {inputs : Record} {returned : Returned} {vs : List Value}

/-- The evaluation of an action calls a host function, which returns something. -/
def Yields (ev : Evaluator) (a : Action) (inputs : Record) (returned : Returned) : Prop :=
  ∃ s c args, ev.CallsBody ⟨.caller, 0, a, inputs⟩ s c args ∧ c.body args = .ok returned

namespace Yields

/-- What is returned is shaped after the outlets, and passes through them. -/
theorem returns (h : ev.Yields a inputs returned) :
    ev.Returns a inputs (returned.toOutputs a >>= a.validate .outward) := by
  obtain ⟨s, c, args, hcalls, hbody⟩ := h
  refine returns_of_evaluateAction (n := 1) (d := 0) ?_
  rw [hcalls.result_evaluateAction, Visit.outputs, hbody]
  rfl

/-- An action without outlets is evaluated to no outputs. -/
theorem returns_of_size_eq_zero (h : ev.Yields a inputs returned) (hempty : a.outlets.size = 0) :
    ev.Returns a inputs (.ok ∅) := by
  have hreturns := h.returns
  rw [Returned.toOutputs_of_size_eq_zero hempty] at hreturns
  exact Action.validate_empty hempty ▸ hreturns

/-- Values by position go to the outlets in order. -/
theorem returns_of_positional (h : ev.Yields a inputs returned) (hoccupied : a.outlets.size ≠ 0)
    (hvs : returned.positional? = some vs) (hlength : vs.length = a.outlets.size) :
    ev.Returns a inputs (a.validate .outward (.ofList (a.outlets.names.zip vs))) := by
  have hreturns := h.returns
  rw [Returned.toOutputs_of_positional hoccupied hvs, if_pos hlength] at hreturns
  exact hreturns

/-- Values by position are not as many as the outlets. -/
theorem returns_of_length_ne (h : ev.Yields a inputs returned) (hoccupied : a.outlets.size ≠ 0)
    (hvs : returned.positional? = some vs) (hlength : vs.length ≠ a.outlets.size) :
    ev.Returns a inputs (.error (.resultCountMismatch a.code a.outlets.size vs.length)) := by
  have hreturns := h.returns
  rw [Returned.toOutputs_of_positional hoccupied hvs, if_neg hlength] at hreturns
  exact hreturns

/-- Values by name are validated as they are. -/
theorem returns_of_named {r : Record} (h : ev.Yields a inputs (.named r))
    (hoccupied : a.outlets.size ≠ 0) : ev.Returns a inputs (a.validate .outward r) := by
  have hreturns := h.returns
  rw [Returned.toOutputs_named hoccupied] at hreturns
  exact hreturns

end Yields

end Evaluator

/-- What an action is evaluated to if a host function is called for it. Without outlets there are no
    outputs, whatever the function returns. Otherwise values by position, as many as the outlets,
    give the same as if a host function returned them by name, listed in any order: the outputs
    that pass through the outlets, or the error of an outlet that rejects its value. Values by
    position of another number are refused for it, values by other names are refused for the names,
    and values by position are never refused for names. -/
theorem returned_shapes {ev : Evaluator} {a : Action} {inputs : Record} {returned : Returned}
    (h : ev.Yields a inputs returned) :
    (a.outlets.size = 0 → ev.Returns a inputs (.ok ∅)) ∧
    (∀ vs, returned.positional? = some vs → a.outlets.size ≠ 0 →
      (∀ (ev' : Evaluator) inputs' r, ev'.Yields a inputs' (.named r) → a.Holds vs r →
        ∃ result, ev.Returns a inputs result ∧ ev'.Returns a inputs' result ∧
          (∀ outputs, result = .ok outputs → a.Passes .outward r outputs) ∧
          ∀ e, result = .error e → ∃ p ∈ a.outlets.parameters, p.Rejects a.code .outward r e) ∧
      (vs.length ≠ a.outlets.size →
        ev.Returns a inputs (.error (.resultCountMismatch a.code a.outlets.size vs.length)))) ∧
    (∀ vs, returned.positional? = some vs → ∀ unexpected missing,
      ¬ev.Returns a inputs (.error (.mismatchedKeys a.code .outward unexpected missing))) ∧
    ∀ r, returned = .named r → a.outlets.size ≠ 0 → ¬a.Named .outward r →
      ∃ unexpected missing,
        ev.Returns a inputs (.error (.mismatchedKeys a.code .outward unexpected missing)) ∧
        Picks r.keys (· ∉ a.outlets.names) unexpected ∧
        Picks a.outlets.names (· ∉ r.keys) missing := by
  refine ⟨h.returns_of_size_eq_zero, fun vs hvs hoccupied => ⟨fun ev' inputs' r h' hr => ?_,
    h.returns_of_length_ne hoccupied hvs⟩, fun vs hvs unexpected missing hmismatch => ?_, ?_⟩
  · have hlisted : a.validate .outward (.ofList (a.outlets.names.zip vs)) = a.validate .outward r :=
      Action.validate_of_perm (by rw [Action.entries_ofList_zip hr.1]; exact hr.2.symm) hr.named
    refine ⟨a.validate .outward r, hlisted ▸ h.returns_of_positional hoccupied hvs hr.1,
      h'.returns_of_named hoccupied, fun outputs => Action.passes_of_validate, fun e he => ?_⟩
    obtain ⟨before, p, after, hports, -, hrejects⟩ := (Action.validate_eq_error_iff hr.named).1 he
    exact ⟨p, hports ▸ by simp, hrejects⟩
  · by_cases hoccupied : a.outlets.size = 0
    · cases hmismatch.unique (h.returns_of_size_eq_zero hoccupied)
    · by_cases hlength : vs.length = a.outlets.size
      · -- The record that lists the values has the names of the outlets.
        have hresult := hmismatch.unique (h.returns_of_positional hoccupied hvs hlength)
        obtain ⟨_, p, _, -, -, hrejects⟩ :=
          (Action.validate_eq_error_iff (Action.holds_ofList_zip hlength).named).1 hresult.symm
        cases hrejects
      · cases hmismatch.unique (h.returns_of_length_ne hoccupied hvs hlength)
  · rintro r rfl hoccupied hnames
    refine ⟨_, _, Action.validate_of_not_named hnames ▸ h.returns_of_named hoccupied,
      picks_filter r.nodup _, picks_filter a.outlets.nodup _⟩

namespace Relay

/-- Splits a pair: an action with two outlets, the second of which takes numbers. -/
def split : Action where
  code := "Split"
  inlets := default
  outlets := ⟨[⟨"left", .any⟩, ⟨"right", .numeric⟩], by simp⟩
  graph := none

/-- The evaluator whose only host function returns something, for splits. -/
def returning (returned : Returned) : Evaluator where
  catalog := { (∅ : Catalog) with
    implementations := ⟨.ofList [("Split", .ofList
      [(engine, ⟨split, engine, .callable ⟨[], fun _ => .ok returned⟩⟩)])]⟩ }
  config := .default
  context := .ofSettings 0 []

theorem yields_returning (returned : Returned) : (returning returned).Yields split ∅ returned :=
  ⟨_, _, ∅, ⟨rfl, rfl, rfl, rfl, rfl⟩, rfl⟩

/-- The results of a split, the right one first. -/
def rightFirst (left right : Json) : Record :=
  .ofList [("right", .json right), ("left", .json left)]

theorem holds_rightFirst (left right : Json) :
    split.Holds [.json left, .json right] (rightFirst left right) :=
  ⟨rfl, .swap _ _ _⟩

end Relay

/-- A split gives the same for a sequence and for a record in another order, be it outputs or the
    error of the second outlet. One value is not enough, and the right value alone not either. -/
theorem returned_shapes_split :
    (∀ left right, ∃ result,
      (Relay.returning (.sequence [.json left, .json right])).Returns Relay.split ∅ result ∧
        (Relay.returning (.named (Relay.rightFirst left right))).Returns Relay.split ∅ result) ∧
    (Relay.returning (.single (.json .null))).Returns Relay.split ∅
      (.error (.resultCountMismatch "Split" 2 1)) ∧
    ∃ unexpected missing, (Relay.returning (.named (Relay.single "right" .null))).Returns
      Relay.split ∅ (.error (.mismatchedKeys "Split" .outward unexpected missing)) := by
  have htwo : Relay.split.outlets.size ≠ 0 := by decide
  refine ⟨fun left right => ?_, ?_, ?_⟩
  · obtain ⟨-, hpositional, -⟩ :=
      returned_shapes (Relay.yields_returning (.sequence [.json left, .json right]))
    obtain ⟨result, hsequence, hnamed, -⟩ := (hpositional _ rfl htwo).1 _ ∅ _
      (Relay.yields_returning _) (Relay.holds_rightFirst left right)
    exact ⟨result, hsequence, hnamed⟩
  · obtain ⟨-, hpositional, -⟩ := returned_shapes (Relay.yields_returning (.single (.json .null)))
    exact (hpositional _ rfl htwo).2 (by decide)
  · obtain ⟨-, -, -, hnamed⟩ :=
      returned_shapes (Relay.yields_returning (.named (Relay.single "right" .null)))
    obtain ⟨unexpected, missing, hmismatch, -⟩ :=
      hnamed _ rfl htwo fun hnames => absurd ((hnames "left").2 List.mem_cons_self) (by decide)
    exact ⟨unexpected, missing, hmismatch⟩

end Dataflow
