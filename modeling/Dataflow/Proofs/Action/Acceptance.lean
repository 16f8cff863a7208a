import Dataflow.Proofs.Action

/-!
# What ports accept

Which records pass through one side of an action, what comes out of them, and why the others do
not pass (`validate_accepts`). The names are compared first, as sets: if they differ the record is
refused for that, whatever its values are. Then the ports are asked in the order of their
declaration, and the first one whose type does not accept its value says why.

So a record counts as a mapping from names to values. The order in which it lists them shows in
one place only, the list of the names that no port has.
-/

namespace Dataflow

/-- The elements of a list with a property, in their order and each of them once. -/
structure Picks {α : Type} (l : List α) (P : α → Prop) (picked : List α) : Prop where
  /-- They stand in the order of the list. -/
  sublist : picked.Sublist l
  /-- None of them is repeated. -/
  nodup : picked.Nodup
  /-- They are those with the property. -/
  mem_iff : ∀ x, x ∈ picked ↔ x ∈ l ∧ P x

theorem picks_filter {α : Type} {l : List α} (hl : l.Nodup) (P : α → Prop) [DecidablePred P] :
    Picks l P (l.filter (P ·)) where
  sublist := List.filter_sublist
  nodup := hl.filter _
  mem_iff x := by rw [List.mem_filter, decide_eq_true_iff]

/-- The type of a parameter returns `w` for the value that a record has under its name. -/
def Parameter.Accepts (p : Parameter) (values : Record) (w : Value) : Prop :=
  ∃ v, values.get? p.name = some v ∧ p.type.validate v = .ok w

/-- The type of a parameter does not accept the value that a record has under its name, which is
    the error of the port: either it finds the value invalid, or it fails. -/
inductive Parameter.Rejects (p : Parameter) (code : String) (direction : Direction)
    (values : Record) : Error → Prop
  /-- The value is invalid, for a reason. -/
  | invalid {v : Value} {reason : String} (hv : values.get? p.name = some v)
    (h : p.type.validate v = .error (.invalid reason)) :
    Rejects p code direction values (.invalidType code direction p.name v.text p.type.code reason)
  /-- The validator failed. -/
  | unexpected {v : Value} {failure : Failure} (hv : values.get? p.name = some v)
    (h : p.type.validate v = .error (.unexpected failure)) :
    Rejects p code direction values (.unexpected p.type.code failure)

namespace Action

variable {a : Action} {direction : Direction} {values values' : Record} {p : Parameter}
  {ps : List Parameter} {v : Value} {e : Error}

/-- A record names the ports of one side of an action: it has a value for each of them, and no
    other values. -/
def Named (a : Action) (direction : Direction) (values : Record) : Prop :=
  ∀ name, name ∈ values.keys ↔ name ∈ (a.ports direction).names

theorem checkNames_of_named (h : a.Named direction values) :
    a.checkNames direction values = .ok () := by
  have hunexpected : values.keys.filter (· ∉ (a.ports direction).names) = [] :=
    List.filter_eq_nil_iff.2 fun name hname => by simpa using (h name).1 hname
  have hmissing : (a.ports direction).names.filter (· ∉ values.keys) = [] :=
    List.filter_eq_nil_iff.2 fun name hname => by simpa using (h name).2 hname
  rw [checkNames, hunexpected, hmissing]
  rfl

theorem checkNames_of_not_named (h : ¬a.Named direction values) :
    a.checkNames direction values =
      .error (.mismatchedKeys a.code direction
        (values.keys.filter (· ∉ (a.ports direction).names))
        ((a.ports direction).names.filter (· ∉ values.keys))) := by
  rw [checkNames]
  exact if_neg fun hempty => h (mem_keys_iff_of_checkNames (if_pos hempty))

/-- A rejection is what the coercion of the value fails with. -/
theorem rejects_iff (hv : values.get? p.name = some v) :
    p.Rejects a.code direction values e ↔ a.coerce direction p v = .error e := by
  constructor
  · rintro (⟨hv', h⟩ | ⟨hv', h⟩) <;>
    · obtain rfl := Option.some.inj (hv.symm.trans hv')
      rw [coerce, h]
  · intro h
    rw [coerce] at h
    split at h
    · cases h
    · next reason hreason => exact Except.error.inj h ▸ .invalid hv hreason
    · next failure hfailure => exact Except.error.inj h ▸ .unexpected hv hfailure

/-- A type that accepts a value does not reject it. -/
theorem not_rejects_of_accepts {w : Value} (h : p.Accepts values w) :
    ¬p.Rejects a.code direction values e := by
  obtain ⟨v, hv, hw⟩ := h
  intro hrejects
  rw [rejects_iff hv, coerce, hw] at hrejects
  cases hrejects

/-- The values are coerced up to the first that is rejected. -/
theorem coerceAll_eq_error_iff (hnames : ∀ p ∈ ps, p.name ∈ values.keys) :
    a.coerceAll direction values ps = .error e ↔
      ∃ before p after, ps = before ++ p :: after ∧ (∀ q ∈ before, ∃ w, q.Accepts values w) ∧
        p.Rejects a.code direction values e := by
  induction ps with
  | nil => simp [coerceAll]
  | cons p rest ih =>
    have hrest := ih fun q hq => hnames q (List.mem_cons_of_mem _ hq)
    obtain ⟨v, hv⟩ := Option.isSome_iff_exists.1
      (OrderedMap.isSome_get?_iff.2 (hnames p List.mem_cons_self))
    rw [coerceAll, hv]
    dsimp only
    rw [Except.bind_eq_error]
    constructor
    · rintro (h | ⟨w, hw, h⟩)
      · exact ⟨[], p, rest, rfl, by simp, (rejects_iff hv).2 h⟩
      · rcases Except.bind_eq_error.1 h with h | ⟨_, -, h⟩
        · obtain ⟨before, q, after, rfl, hbefore, hq⟩ := hrest.1 h
          refine ⟨p :: before, q, after, rfl, fun r hr => ?_, hq⟩
          rcases List.mem_cons.1 hr with rfl | hr
          · exact ⟨w, v, hv, coerce_eq_ok hw⟩
          · exact hbefore r hr
        · cases h
    · rintro ⟨before, q, after, heq, hbefore, hq⟩
      rcases List.cons_eq_append_iff.1 heq with ⟨rfl, hp⟩ | ⟨later, rfl, hlater⟩
      · obtain ⟨rfl, rfl⟩ := List.cons.inj hp
        exact .inl ((rejects_iff hv).1 hq)
      · obtain ⟨w, v', hv', hw⟩ := hbefore p List.mem_cons_self
        obtain rfl := Option.some.inj (hv.symm.trans hv')
        have herror := hrest.2 ⟨later, q, after, hlater,
          fun r hr => hbefore r (List.mem_cons_of_mem _ hr), hq⟩
        exact .inr ⟨w, by rw [coerce, hw], by rw [herror]; rfl⟩

/-- A record of other names is refused for them. -/
theorem validate_of_not_named (h : ¬a.Named direction values) :
    a.validate direction values =
      .error (.mismatchedKeys a.code direction
        (values.keys.filter (· ∉ (a.ports direction).names))
        ((a.ports direction).names.filter (· ∉ values.keys))) := by
  rw [validate, checkNames_of_not_named h]
  rfl

/-- A record of the right names is refused for the first value that is rejected. -/
theorem validate_eq_error_iff (h : a.Named direction values) :
    a.validate direction values = .error e ↔
      ∃ before p after, (a.ports direction).parameters = before ++ p :: after ∧
        (∀ q ∈ before, ∃ w, q.Accepts values w) ∧ p.Rejects a.code direction values e := by
  rw [← coerceAll_eq_error_iff fun p hp => (h p.name).2 (List.mem_map_of_mem hp), validate,
    checkNames_of_named h]
  show (a.coerceAll direction values _ >>= _) = _ ↔ _
  rw [Except.bind_eq_error]
  refine or_iff_left ?_
  rintro ⟨_, -, hpure⟩
  cases hpure

theorem exists_validate_iff :
    (∃ validated, a.validate direction values = .ok validated) ↔
      a.Named direction values ∧
        ∀ p ∈ (a.ports direction).parameters, ∃ w, p.Accepts values w := by
  constructor
  · rintro ⟨validated, h⟩
    have hpasses := passes_of_validate h
    refine ⟨hpasses.names, fun p hp => ?_⟩
    obtain ⟨v, w, hv, hw, -⟩ := hpasses.accepted p hp
    exact ⟨w, v, hv, hw⟩
  · rintro ⟨hnamed, haccepts⟩
    rcases hvalidate : a.validate direction values with e | validated
    · -- The port that refuses its value accepts it.
      obtain ⟨before, p, after, hports, -, hrejects⟩ := (validate_eq_error_iff hnamed).1 hvalidate
      obtain ⟨w, hw⟩ := haccepts p (hports ▸ by simp)
      exact absurd hrejects (not_rejects_of_accepts hw)
    · exact ⟨validated, rfl⟩

/-- Records of the right names that list the same values in another order are validated alike. -/
theorem validate_of_perm (hperm : values'.entries.Perm values.entries)
    (h : a.Named direction values) :
    a.validate direction values' = a.validate direction values := by
  have hkeys : values'.keys.Perm values.keys := hperm.map Prod.fst
  have hnone {r : Record} (hr : a.Named direction r) :
      r.keys.filter (· ∉ (a.ports direction).names) = [] :=
    List.filter_eq_nil_iff.2 fun name hname => by simpa using (hr name).1 hname
  refine validate_congr (fun name _ => OrderedMap.perm_entries_iff.1 hperm name) ?_
  rw [hnone h, hnone fun name => hkeys.mem_iff.trans (h name)]

end Action

/-- A record passes through one side of an action exactly if its names are those of the ports and
    the type of every port accepts its value; what comes out has the names of the ports in their
    order, each with the value that its type returned. If the names differ it is refused for them:
    those that no port has are listed in the order of the record, those that it lacks in the order
    of the ports. Otherwise it is refused at the first port whose type does not accept its value.
    But for the names that no port has, the order of the record does not matter. -/
theorem validate_accepts (a : Action) (direction : Direction) (values : Record) :
    let ports := a.ports direction
    ((∃ validated, a.validate direction values = .ok validated) ↔
      a.Named direction values ∧ ∀ p ∈ ports.parameters, ∃ w, p.Accepts values w) ∧
    (∀ validated, a.validate direction values = .ok validated →
      validated.keys = ports.names ∧
        ∀ p ∈ ports.parameters, ∃ w, p.Accepts values w ∧ validated.get? p.name = some w) ∧
    (¬a.Named direction values → ∃ unexpected missing,
      a.validate direction values =
        .error (.mismatchedKeys a.code direction unexpected missing) ∧
      Picks values.keys (· ∉ ports.names) unexpected ∧
      Picks ports.names (· ∉ values.keys) missing) ∧
    (a.Named direction values → ∀ e, a.validate direction values = .error e ↔
      ∃ before p after, ports.parameters = before ++ p :: after ∧
        (∀ q ∈ before, ∃ w, q.Accepts values w) ∧ p.Rejects a.code direction values e) ∧
    ∀ values' : Record, values'.entries.Perm values.entries →
      ∀ r, (∀ unexpected missing,
        r ≠ .error (.mismatchedKeys a.code direction unexpected missing)) →
        (a.validate direction values' = r ↔ a.validate direction values = r) := by
  intro ports
  refine ⟨Action.exists_validate_iff, fun validated h => ?_, fun h => ?_,
    fun h e => Action.validate_eq_error_iff h, fun values' hperm r hr => ?_⟩
  · refine ⟨Action.keys_of_validate h, fun p hp => ?_⟩
    obtain ⟨v, w, hv, hw, hget⟩ := (Action.passes_of_validate h).accepted p hp
    exact ⟨w, ⟨v, hv, hw⟩, hget⟩
  · exact ⟨_, _, Action.validate_of_not_named h, picks_filter values.nodup _,
      picks_filter ports.nodup _⟩
  · by_cases h : a.Named direction values
    · rw [Action.validate_of_perm hperm h]
    · -- Both records are refused for their names.
      have h' : ¬a.Named direction values' := fun h' =>
        h fun name => (hperm.map Prod.fst).mem_iff.symm.trans (h' name)
      rw [Action.validate_of_not_named h, Action.validate_of_not_named h']
      exact iff_of_false (fun heq => hr _ _ heq.symm) fun heq => hr _ _ heq.symm

end Dataflow
