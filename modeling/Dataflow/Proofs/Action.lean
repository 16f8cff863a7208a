import Dataflow.Action.Validation
import Dataflow.Proofs.OrderedMap
import Dataflow.Proofs.Run

/-!
# Ports and what passes through them

* `Action.port_code`: the name of a port leads to its index.
* `Action.keys_of_validate`: a record that passed through one side of an action has
  exactly the names of the ports, in their order.
* `Action.passes_of_validate`: each of its values is one that the type of the port accepted.
* `Action.error_of_validate`: a record is refused for its names or for a value that the
  type of its port rejects.
* `Action.validate_congr`: nothing else about a record matters.
-/

namespace Dataflow

namespace Ports

@[simp] theorem length_names (ports : Ports) : ports.names.length = ports.size :=
  List.length_map _

theorem ext {ports ports' : Ports} (h : ports.parameters = ports'.parameters) :
    ports = ports' := by
  cases ports
  cases ports'
  cases h
  rfl

theorem parameters_of_ofParameters {parameters : List Parameter} {ports : Ports}
    (h : ofParameters parameters = .ok ports) : ports.parameters = parameters := by
  rw [ofParameters] at h
  split at h
  · rw [← Except.ok.inj h]
  · cases h

/-- The parameters of ports are accepted again. -/
theorem ofParameters_parameters (ports : Ports) : ofParameters ports.parameters = .ok ports := by
  have hfree : firstRepeat? [] (ports.parameters.map Parameter.name) = none :=
    firstRepeat?_eq_none_iff.2 ⟨ports.nodup, fun _ _ => List.not_mem_nil⟩
  rw [ofParameters]
  split
  · rfl
  · next hrepeat =>
    rw [hfree] at hrepeat
    cases hrepeat

theorem exists_getElem? {ports : Ports} {i : Nat} (h : i < ports.size) :
    ∃ p, ports.parameters[i]? = some p :=
  ⟨_, List.getElem?_eq_getElem h⟩

theorem lt_of_indexOf? {ports : Ports} {key : PortKey} {i : Nat} (h : ports.indexOf? key = some i) :
    i < ports.size := by
  cases key with
  | code name => exact (List.findIdx?_eq_some_iff_getElem.1 h).1
  | index j =>
    rw [indexOf?] at h
    split at h
    · exact Option.some.inj h ▸ ‹j < ports.size›
    · cases h

end Ports

namespace ValueType

/-- The context type accepts contexts, and returns them as they are. -/
theorem eq_of_validate_of_isContext (t : ValueType) {v w : Value} (ht : t.isContext = true)
    (h : t.validate v = .ok w) : w = v := by
  cases t with
  | custom code validator => cases ht
  | context =>
    cases v with
    | context c => exact (Except.ok.inj h).symm
    | _ => cases h

end ValueType

namespace Action

variable {a : Action} {direction : Direction} {i : Nat} {p : Parameter} {port : Port}
  {key : PortKey} {values outputs : Record} {e : Error}

theorem portAt?_of_getElem? (h : (a.ports direction).parameters[i]? = some p) :
    a.portAt? direction i = some ⟨a.code, direction, i, p⟩ := by
  rw [portAt?, h]
  rfl

/-- A port that is looked up stands at its index. -/
theorem getElem?_of_port (h : a.port direction key = .ok port) :
    (a.ports direction).parameters[port.index]? = some port.parameter := by
  rw [Action.port] at h
  split at h
  · next found hfound =>
    obtain ⟨i, -, hi⟩ := Option.bind_eq_some_iff.1 hfound
    obtain ⟨p, hp, rfl⟩ := Option.map_eq_some_iff.1 hi
    rw [← Except.ok.inj h]
    exact hp
  · cases h

theorem index_lt_of_port (h : a.port direction key = .ok port) :
    port.index < (a.ports direction).size :=
  (List.getElem?_eq_some_iff.1 (getElem?_of_port h)).1

/-- An address leads to the port at its index. -/
theorem port_of_indexOf? (hi : (a.ports direction).indexOf? key = some i)
    (hp : (a.ports direction).parameters[i]? = some p) :
    a.port direction key = .ok ⟨a.code, direction, i, p⟩ := by
  have hport : (a.ports direction).indexOf? key >>= a.portAt? direction =
      some ⟨a.code, direction, i, p⟩ := by
    rw [hi]
    exact portAt?_of_getElem? hp
  rw [Action.port, hport]

/-- The name of a parameter leads to its index. -/
theorem indexOf?_code (h : (a.ports direction).parameters[i]? = some p) :
    (a.ports direction).indexOf? (.code p.name) = some i := by
  obtain ⟨hi, rfl⟩ := List.getElem?_eq_some_iff.1 h
  rw [Ports.indexOf?, List.findIdx?_eq_some_iff_getElem]
  refine ⟨hi, by simp, fun j hj hname => ?_⟩
  -- An earlier parameter of the same name would repeat it.
  have hlen : i < ((a.ports direction).parameters.map Parameter.name).length := by simpa using hi
  refine List.pairwise_iff_getElem.1 (a.ports direction).nodup j i (by omega) hlen hj ?_
  simpa using hname

/-- The name of a parameter leads to the port at its index. -/
theorem port_code (h : (a.ports direction).parameters[i]? = some p) :
    a.port direction (.code p.name) = .ok ⟨a.code, direction, i, p⟩ :=
  port_of_indexOf? (indexOf?_code h) h

/-! ## Validation -/

/-- The names of a record are accepted if they are those of the ports. -/
theorem mem_keys_iff_of_checkNames (h : a.checkNames direction values = .ok ()) (name : String) :
    name ∈ values.keys ↔ name ∈ (a.ports direction).names := by
  rw [checkNames] at h
  split at h
  · next hempty =>
    rw [Bool.and_eq_true, List.isEmpty_iff, List.isEmpty_iff] at hempty
    constructor
    · intro hname
      simpa using List.filter_eq_nil_iff.1 hempty.1 name hname
    · intro hname
      simpa using List.filter_eq_nil_iff.1 hempty.2 name hname
  · cases h

theorem error_of_checkNames (h : a.checkNames direction values = .error e) :
    ∃ unexpected missing, e = .mismatchedKeys a.code direction unexpected missing := by
  rw [checkNames] at h
  split at h
  · cases h
  · exact ⟨_, _, (Except.error.inj h).symm⟩

theorem keys_of_coerceAll {ps : List Parameter} {entries : List (String × Value)}
    (hnames : ∀ p ∈ ps, p.name ∈ values.keys)
    (h : a.coerceAll direction values ps = .ok entries) :
    entries.map Prod.fst = ps.map Parameter.name := by
  induction ps generalizing entries with
  | nil => rw [← Except.ok.inj h]; rfl
  | cons p rest ih =>
    rw [coerceAll] at h
    split at h
    · -- No parameter is passed over, as all of them have values.
      next hnone =>
      exact absurd (hnames p List.mem_cons_self) (OrderedMap.get?_eq_none_iff.1 hnone)
    · simp only [Except.bind_eq_ok, Except.pure_eq_ok] at h
      obtain ⟨w, -, later, hlater, rfl⟩ := h
      rw [List.map_cons, List.map_cons,
        ih (fun q hq => hnames q (List.mem_cons_of_mem _ hq)) hlater]

theorem error_of_coerceAll {ps : List Parameter}
    (h : a.coerceAll direction values ps = .error e) :
    ∃ p ∈ ps, ∃ v, values.get? p.name = some v ∧ a.coerce direction p v = .error e := by
  induction ps with
  | nil => cases h
  | cons p rest ih =>
    have hlater (h : a.coerceAll direction values rest = .error e) :
        ∃ q ∈ p :: rest, ∃ v, values.get? q.name = some v ∧ a.coerce direction q v = .error e := by
      obtain ⟨q, hq, v, hv⟩ := ih h
      exact ⟨q, List.mem_cons_of_mem _ hq, v, hv⟩
    rw [coerceAll] at h
    split at h
    · exact hlater h
    · next v hv =>
      simp only [Except.bind_eq_error] at h
      rcases h with h | ⟨w, -, h | ⟨_, -, h⟩⟩
      · exact ⟨p, List.mem_cons_self, v, hv, h⟩
      · exact hlater h
      · cases h

/-- What passed through one side of an action has the names of the ports, in order. -/
theorem keys_of_validate (h : a.validate direction values = .ok outputs) :
    outputs.keys = (a.ports direction).names := by
  simp only [validate, Except.bind_eq_ok, Except.pure_eq_ok] at h
  obtain ⟨_, hcheck, entries, hentries, rfl⟩ := h
  have hkeys : entries.map Prod.fst = (a.ports direction).names :=
    keys_of_coerceAll
      (fun p hp => (mem_keys_iff_of_checkNames hcheck _).2 (List.mem_map_of_mem hp)) hentries
  rw [OrderedMap.keys_ofList (hkeys ▸ (a.ports direction).nodup), hkeys]

theorem coerce_eq_ok {v w : Value} (h : a.coerce direction p v = .ok w) :
    p.type.validate v = .ok w := by
  rw [coerce] at h
  split at h
  · next hv => rw [hv, Except.ok.inj h]
  · cases h
  · cases h

theorem mem_of_coerceAll {ps : List Parameter} {entries : List (String × Value)} {v : Value}
    (h : a.coerceAll direction values ps = .ok entries) (hp : p ∈ ps)
    (hv : values.get? p.name = some v) :
    ∃ w, p.type.validate v = .ok w ∧ (p.name, w) ∈ entries := by
  induction ps generalizing entries with
  | nil => cases hp
  | cons q rest ih =>
    rw [coerceAll] at h
    split at h
    · next hnone =>
      rcases List.mem_cons.1 hp with rfl | hp
      · rw [hv] at hnone
        cases hnone
      · exact ih h hp
    · next v' hv' =>
      simp only [Except.bind_eq_ok, Except.pure_eq_ok] at h
      obtain ⟨w, hw, later, hlater, rfl⟩ := h
      rcases List.mem_cons.1 hp with rfl | hp
      · obtain rfl := Option.some.inj (hv.symm.trans hv')
        exact ⟨w, coerce_eq_ok hw, List.mem_cons_self⟩
      · obtain ⟨w', hw', hmem⟩ := ih hlater hp
        exact ⟨w', hw', List.mem_cons_of_mem _ hmem⟩

/-- A record passed through one side of an action: what was given has exactly the names of
    the ports, and what came out has them in order, each with the value that the type of the
    port returned for the given one. -/
structure Passes (a : Action) (direction : Direction) (given passed : Record) : Prop where
  /-- The given names are those of the ports. -/
  names : ∀ name, name ∈ given.keys ↔ name ∈ (a.ports direction).names
  /-- The names that came out are those of the ports, in order. -/
  keys : passed.keys = (a.ports direction).names
  /-- Every value that came out was accepted. -/
  accepted : ∀ p ∈ (a.ports direction).parameters, ∃ v w, given.get? p.name = some v ∧
    p.type.validate v = .ok w ∧ passed.get? p.name = some w

theorem passes_of_validate (h : a.validate direction values = .ok outputs) :
    a.Passes direction values outputs := by
  have hkeys := keys_of_validate h
  simp only [validate, Except.bind_eq_ok, Except.pure_eq_ok] at h
  obtain ⟨_, hcheck, entries, hentries, rfl⟩ := h
  have hnames : ∀ p ∈ (a.ports direction).parameters, p.name ∈ values.keys :=
    fun p hp => (mem_keys_iff_of_checkNames hcheck _).2 (List.mem_map_of_mem hp)
  have hnodup : (entries.map Prod.fst).Nodup :=
    keys_of_coerceAll hnames hentries ▸ (a.ports direction).nodup
  refine ⟨mem_keys_iff_of_checkNames hcheck, hkeys, fun p hp => ?_⟩
  obtain ⟨v, hv⟩ := Option.isSome_iff_exists.1 (OrderedMap.isSome_get?_iff.2 (hnames p hp))
  obtain ⟨w, hw, hmem⟩ := mem_of_coerceAll hentries hp hv
  refine ⟨v, w, hv, hw, OrderedMap.get?_eq_some_iff.2 ?_⟩
  rwa [OrderedMap.entries_ofList hnodup]

/-- A record is refused for its names, or for a value that the type of its port rejects. -/
theorem error_of_validate (h : a.validate direction values = .error e) :
    a.checkNames direction values = .error e ∨
      ∃ p ∈ (a.ports direction).parameters, ∃ v,
        values.get? p.name = some v ∧ a.coerce direction p v = .error e := by
  simp only [validate, Except.bind_eq_error] at h
  rcases h with h | ⟨_, -, h | ⟨_, -, h⟩⟩
  · exact .inl h
  · exact .inr (error_of_coerceAll h)
  · cases h

theorem coerceAll_congr {values' : Record} {ps : List Parameter}
    (h : ∀ p ∈ ps, values'.get? p.name = values.get? p.name) :
    a.coerceAll direction values' ps = a.coerceAll direction values ps := by
  induction ps with
  | nil => rfl
  | cons p rest ih =>
    rw [coerceAll, coerceAll, h p List.mem_cons_self,
      ih fun q hq => h q (List.mem_cons_of_mem _ hq)]

/-- All that matters about a record is what it has under the names of the ports, and what
    other names it has. -/
theorem validate_congr {values' : Record}
    (hvalues : ∀ name ∈ (a.ports direction).names, values'.get? name = values.get? name)
    (hothers : values'.keys.filter (· ∉ (a.ports direction).names) =
      values.keys.filter (· ∉ (a.ports direction).names)) :
    a.validate direction values' = a.validate direction values := by
  have hmissing : (a.ports direction).names.filter (· ∉ values'.keys) =
      (a.ports direction).names.filter (· ∉ values.keys) := by
    refine List.filter_congr fun name hname => ?_
    simp only [← OrderedMap.isSome_get?_iff, hvalues name hname]
  rw [validate, validate, checkNames, checkNames, hothers, hmissing,
    coerceAll_congr fun p hp => hvalues _ (List.mem_map_of_mem hp)]

/-- Validation is a matter of the code and the ports alone. -/
theorem validate_setGraph (a : Action) (graph : Option Graph) (direction : Direction)
    (values : Record) :
    ({ a with graph } : Action).validate direction values = a.validate direction values := by
  have hcoerce (ps : List Parameter) : ({ a with graph } : Action).coerceAll direction values ps =
      a.coerceAll direction values ps := by
    induction ps with
    | nil => rfl
    | cons p rest ih =>
      rw [coerceAll, coerceAll, ih]
      rfl
  have hports : ({ a with graph } : Action).ports direction = a.ports direction := by
    cases direction <;> rfl
  rw [validate, validate, checkNames, checkNames, hports, hcoerce]

/-! ## The context inlet -/

/-- The first inlet that receives the context is an inlet that does. -/
theorem mem_of_contextInlet? (h : a.contextInlet? = some port) :
    port.parameter ∈ a.inlets.parameters ∧ port.parameter.type.isContext = true := by
  obtain ⟨i, hi, hport⟩ := Option.bind_eq_some_iff.1 h
  obtain ⟨hlt, htype, -⟩ := List.findIdx?_eq_some_iff_getElem.1 hi
  obtain ⟨p, hp, rfl⟩ := Option.map_eq_some_iff.1 hport
  obtain rfl := Option.some.inj ((List.getElem?_eq_getElem hlt).symm.trans hp)
  exact ⟨List.getElem_mem hlt, htype⟩

/-- If an inlet receives the context, there is a first one. -/
theorem exists_contextInlet? (hp : p ∈ a.inlets.parameters) (hc : p.type.isContext = true) :
    ∃ port, a.contextInlet? = some port := by
  have hisSome : a.inlets.contextIndex?.isSome = true := by
    rw [Ports.contextIndex?, List.findIdx?_isSome, List.any_eq_true]
    exact ⟨p, hp, hc⟩
  obtain ⟨i, hi⟩ := Option.isSome_iff_exists.1 hisSome
  obtain ⟨hlt, -⟩ := List.findIdx?_eq_some_iff_getElem.1 hi
  rw [contextInlet?, hi]
  exact ⟨_, portAt?_of_getElem? (List.getElem?_eq_getElem hlt)⟩

/-- An inlet or outlet of the context type lets contexts through as they are. -/
theorem Passes.get?_of_isContext {passed : Record} (h : a.Passes direction values passed)
    (hp : p ∈ (a.ports direction).parameters) (hc : p.type.isContext = true) :
    passed.get? p.name = values.get? p.name := by
  obtain ⟨v, w, hv, hw, hget⟩ := h.accepted p hp
  rw [hv, hget, p.type.eq_of_validate_of_isContext hc hw]

end Action

end Dataflow
