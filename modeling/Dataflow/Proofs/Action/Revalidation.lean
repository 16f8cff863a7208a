import Dataflow.Proofs.Action

/-!
# Validation over again

What passed through one side of an action passes through the same ports again, and comes out as
it is, if their types are *idempotent*: a value that a type returned is accepted unchanged
(`Action.validate_of_validate`). The builtin types are (`ValueType.idempotent_of_builtin`); a type
that rounds away from what it accepts, say, need not be.

Which action the ports belong to shows in the errors that name it, and in nothing else
(`Action.validate_of_ports_eq`).
-/

namespace Dataflow

/-- A type accepts what it returned, and returns it as it is. -/
def ValueType.Idempotent (t : ValueType) : Prop :=
  ∀ v w, t.validate v = .ok w → t.validate w = .ok w

/-- The types of all ports are idempotent. -/
def Ports.Idempotent (ports : Ports) : Prop := ∀ p ∈ ports.parameters, p.type.Idempotent

/-- A number that JSON data can hold. -/
def Number.IsFinite : Number → Prop
  | int _ => True
  | float x => x.isFinite = true

/-- A text is read as a finite float or not at all. -/
theorem Decimal.isFinite_of_float? {s : String} {x : Float} (h : float? s = some x) :
    x.isFinite = true := by
  obtain ⟨exponent, -, h⟩ := Option.bind_eq_some_iff.1 h
  obtain ⟨hfinite, hx⟩ := Option.ite_none_left_eq_some.1 h
  rw [← Option.some.inj hx]
  simpa using (not_or.1 hfinite).2

namespace ValueType

theorem idempotent_any : any.Idempotent := fun _ _ _ => rfl

theorem idempotent_context : context.Idempotent := by
  intro v w h
  obtain rfl := eq_of_validate_of_isContext .context rfl h
  exact h

/-- What the numeric type returns is a number; if it is not the given value, it is finite. -/
theorem exists_number_of_validate {v w : Value} (h : numeric.validate v = .ok w) :
    ∃ n : Number, w = .json (.number n) ∧ (v = w ∨ n.IsFinite) := by
  change coerceNumber v = .ok w at h
  unfold coerceNumber at h
  split at h
  · obtain rfl := Except.ok.inj h
    exact ⟨_, rfl, .inl rfl⟩
  · obtain rfl := Except.ok.inj h
    exact ⟨_, rfl, .inr trivial⟩
  · split at h
    · next x hx =>
      obtain rfl := Except.ok.inj h
      exact ⟨_, rfl, .inr (Decimal.isFinite_of_float? hx)⟩
    · cases h
  · cases h

/-- A number that was read is a number. -/
theorem idempotent_numeric : numeric.Idempotent := by
  intro v w h
  obtain ⟨n, rfl, -⟩ := exists_number_of_validate h
  rfl

theorem idempotent_string : string.Idempotent := by
  have hstring (s : String) : string.validate (.json (.string s)) = .ok (.json (.string s)) := rfl
  intro v w h
  change coerceString v = .ok w at h
  unfold coerceString at h
  split at h
  · exact Except.ok.inj h ▸ hstring _
  · exact Except.ok.inj h ▸ hstring _

/-- The builtin types are idempotent. -/
theorem idempotent_of_builtin {t : ValueType} (h : t ∈ [any, numeric, string, context]) :
    t.Idempotent := by
  simp only [List.mem_cons, List.not_mem_nil, or_false] at h
  rcases h with rfl | rfl | rfl | rfl
  · exact idempotent_any
  · exact idempotent_numeric
  · exact idempotent_string
  · exact idempotent_context

end ValueType

/-- The error with another action in its place, if it says which action refused a record for its
    names or for a value. -/
def Error.naming (code : String) : Error → Error
  | mismatchedKeys _ direction extra absent => .mismatchedKeys code direction extra absent
  | invalidType _ direction parameter value expected reason =>
    .invalidType code direction parameter value expected reason
  | e => e

namespace Action

variable {a b : Action} {direction : Direction} {values validated : Record}

/-! ## The same ports -/

/-- The same ports accept the same records; the errors differ in the action that they name. -/
theorem validate_of_ports_eq (h : b.ports direction = a.ports direction) (values : Record) :
    b.validate direction values = (a.validate direction values).mapError (.naming b.code) := by
  have hcoerce (p : Parameter) (v : Value) :
      b.coerce direction p v = (a.coerce direction p v).mapError (.naming b.code) := by
    rw [coerce, coerce]
    split <;> rfl
  have hcoerceAll (ps : List Parameter) : b.coerceAll direction values ps =
      (a.coerceAll direction values ps).mapError (.naming b.code) := by
    induction ps with
    | nil => rfl
    | cons p rest ih =>
      rw [coerceAll, coerceAll]
      split
      · exact ih
      · simp only [Except.mapError_bind, hcoerce, ih]
        rfl
  have hnames : b.checkNames direction values =
      (a.checkNames direction values).mapError (.naming b.code) := by
    rw [checkNames, checkNames, h]
    split <;> rfl
  simp only [validate, Except.mapError_bind, hnames, h, hcoerceAll]
  rfl

theorem validate_eq_ok_of_ports_eq (h : b.ports direction = a.ports direction)
    (hvalidated : a.validate direction values = .ok validated) :
    b.validate direction values = .ok validated := by
  rw [validate_of_ports_eq h, hvalidated]
  rfl

/-! ## What was validated -/

/-- Values that their types leave unchanged are collected as they are. -/
theorem coerceAll_of_fixed {ps : List Parameter} {entries : List (String × Value)}
    (hnames : entries.map Prod.fst = ps.map Parameter.name)
    (hvalues : ∀ entry ∈ entries, values.get? entry.1 = some entry.2)
    (hfixed : ∀ p ∈ ps, ∀ w, values.get? p.name = some w → p.type.validate w = .ok w) :
    a.coerceAll direction values ps = .ok entries := by
  induction ps generalizing entries with
  | nil =>
    rw [List.map_eq_nil_iff.1 hnames]
    rfl
  | cons p rest ih =>
    obtain ⟨⟨name, w⟩, later, rfl, rfl, hlater⟩ := List.map_eq_cons_iff.1 hnames
    have hw := hvalues _ List.mem_cons_self
    have hcoerce : a.coerce direction p w = .ok w := by
      rw [coerce, hfixed p List.mem_cons_self w hw]
    rw [coerceAll, hw]
    dsimp only
    rw [hcoerce, ih hlater (fun entry hentry => hvalues entry (List.mem_cons_of_mem _ hentry))
      fun q hq => hfixed q (List.mem_cons_of_mem _ hq)]
    rfl

/-- A record of the ports, in their order, whose values the types leave unchanged passes as it
    is. -/
theorem validate_of_fixed (hkeys : values.keys = (a.ports direction).names)
    (hfixed : ∀ p ∈ (a.ports direction).parameters, ∀ w, values.get? p.name = some w →
      p.type.validate w = .ok w) : a.validate direction values = .ok values := by
  have hnames : a.checkNames direction values = .ok () := by
    rw [checkNames, hkeys]
    simp
  have hentries : a.coerceAll direction values (a.ports direction).parameters =
      .ok values.entries :=
    coerceAll_of_fixed hkeys (fun entry hentry => OrderedMap.get?_eq_some_iff.2 hentry) hfixed
  rw [validate, hnames, hentries]
  exact congrArg Except.ok (OrderedMap.ext (OrderedMap.entries_ofList values.nodup))

/-- What passed through idempotent ports passes again, as it is. -/
theorem validate_of_validate (hidempotent : (a.ports direction).Idempotent)
    (h : a.validate direction values = .ok validated) :
    a.validate direction validated = .ok validated := by
  refine validate_of_fixed (keys_of_validate h) fun p hp w hw => ?_
  obtain ⟨v, w', -, haccepted, hget⟩ := (passes_of_validate h).accepted p hp
  obtain rfl := Option.some.inj (hw.symm.trans hget)
  exact hidempotent p hp v w haccepted

end Action

end Dataflow
