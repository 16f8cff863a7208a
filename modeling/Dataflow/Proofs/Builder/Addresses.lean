import Dataflow.Evaluation
import Dataflow.Proofs.Builder.Faults

/-!
# Addresses of ports

A builder keeps the indices of ports, records are checked by their names, and an evaluation goes
from names back to indices. All of them have to mean the same ports. They do, as the names of one
side of an action are distinct: a list of parameters with a repeated name is refused
(`Action.ofParameters_eq_error_iff`). So a name and an index lead to each other
(`Action.port_code_iff`), and only names that no port has and indices past the last port lead
nowhere.

A step handle looks its ports up in the action (`StepHandle.terminal_eq_ok_iff`), and whatever goes
over all ports goes over the same list, `Action.portList`: the search for the context inlet, the
check for sources, the inlets of a scope, and reading the arguments of a step or the results of an
algorithm (`Action.Iterates`).
-/

namespace Dataflow

/-! ## Lists of parameters -/

/-- Parameters of distinct names are accepted. -/
theorem Ports.exists_ofParameters_iff {parameters : List Parameter} :
    (∃ ports, ofParameters parameters = .ok ports) ↔
      (parameters.map Parameter.name).Nodup := by
  constructor
  · rintro ⟨ports, h⟩
    exact parameters_of_ofParameters h ▸ ports.nodup
  · intro h
    exact ⟨_, ofParameters_parameters ⟨parameters, h⟩⟩

theorem Ports.ofParameters_eq_error_iff {parameters : List Parameter} {name : String} :
    ofParameters parameters = .error name ↔
      IsFirstRepeat (parameters.map Parameter.name) name := by
  rw [ofParameters_error, firstRepeat?_eq_some_iff]

namespace Action

variable {a : Action} {code name : String} {inlets outlets : List Parameter}
  {direction : Direction} {key : PortKey} {port : Port} {i : Nat} {e : Error}

/-- Parameters of distinct names, on either side, make an action. -/
theorem exists_ofParameters_iff :
    (∃ a, ofParameters code inlets outlets = .ok a) ↔
      (inlets.map Parameter.name).Nodup ∧ (outlets.map Parameter.name).Nodup := by
  rw [← Ports.exists_ofParameters_iff, ← Ports.exists_ofParameters_iff, ofParameters]
  cases Ports.ofParameters inlets with
  | error name => simp
  | ok inlets => cases Ports.ofParameters outlets <;> simp

/-- Others are refused for the first repeated name, that of an inlet if there is one. -/
theorem ofParameters_eq_error_iff :
    ofParameters code inlets outlets = .error e ↔
      (∃ name, IsFirstRepeat (inlets.map Parameter.name) name ∧
        e = .duplicatePort code .inward name) ∨
      (inlets.map Parameter.name).Nodup ∧
        ∃ name, IsFirstRepeat (outlets.map Parameter.name) name ∧
          e = .duplicatePort code .outward name := by
  simp only [← Ports.ofParameters_eq_error_iff, ← Ports.exists_ofParameters_iff, ofParameters]
  cases Ports.ofParameters inlets with
  | error name => simp [eq_comm]
  | ok inlets => cases Ports.ofParameters outlets <;> simp [eq_comm]

/-! ## Looking ports up -/

theorem port_eq_ok_iff :
    a.port direction key = .ok port ↔ ∃ i p, (a.ports direction).indexOf? key = some i ∧
      (a.ports direction).parameters[i]? = some p ∧ port = ⟨a.code, direction, i, p⟩ := by
  constructor
  · intro h
    rw [Action.port] at h
    split at h
    · next found hfound =>
      obtain ⟨i, hi, hport⟩ := Option.bind_eq_some_iff.1 hfound
      obtain ⟨p, hp, rfl⟩ := Option.map_eq_some_iff.1 hport
      exact ⟨i, p, hi, hp, (Except.ok.inj h).symm⟩
    · cases h
  · rintro ⟨i, p, hi, hp, rfl⟩
    exact port_of_indexOf? hi hp

theorem port_eq_error_iff :
    a.port direction key = .error e ↔ (a.ports direction).indexOf? key = none ∧
      e = .unknownPort s!"action `{a.code}`" direction key := by
  cases hkey : (a.ports direction).indexOf? key with
  | none => simp [Action.port, hkey, eq_comm]
  | some i =>
    obtain ⟨p, hp⟩ := Ports.exists_getElem? (Ports.lt_of_indexOf? hkey)
    simp [port_of_indexOf? hkey hp]

/-- An index leads to the parameter that stands there. -/
theorem port_index_iff :
    a.port direction (.index i) = .ok port ↔
      ∃ p, (a.ports direction).parameters[i]? = some p ∧ port = ⟨a.code, direction, i, p⟩ := by
  rw [port_eq_ok_iff]
  constructor
  · rintro ⟨j, p, hj, hp, rfl⟩
    obtain ⟨-, hij⟩ := Option.ite_none_right_eq_some.1 hj
    obtain rfl := Option.some.inj hij
    exact ⟨p, hp, rfl⟩
  · rintro ⟨p, hp, rfl⟩
    exact ⟨i, p, if_pos (List.getElem?_eq_some_iff.1 hp).1, hp, rfl⟩

/-- A name leads to the port that its index leads to, which has the name. -/
theorem port_code_iff :
    a.port direction (.code name) = .ok port ↔
      a.port direction (.index port.index) = .ok port ∧ port.parameter.name = name := by
  rw [port_index_iff]
  constructor
  · intro h
    obtain ⟨i, p, hi, hp, rfl⟩ := port_eq_ok_iff.1 h
    obtain ⟨hlt, hname, -⟩ := List.findIdx?_eq_some_iff_getElem.1 hi
    obtain rfl := Option.some.inj ((List.getElem?_eq_getElem hlt).symm.trans hp)
    exact ⟨⟨_, hp, rfl⟩, beq_iff_eq.1 hname⟩
  · rintro ⟨⟨p, hp, hport⟩, rfl⟩
    rw [hport] at hp ⊢
    exact port_code hp

theorem indexOf?_code_eq_none_iff :
    (a.ports direction).indexOf? (.code name) = none ↔ name ∉ (a.ports direction).names := by
  simp [Ports.indexOf?, Ports.names, List.findIdx?_eq_none_iff]

theorem indexOf?_index_eq_none_iff :
    (a.ports direction).indexOf? (.index i) = none ↔ (a.ports direction).size ≤ i := by
  simp [Ports.indexOf?]

/-! ## All ports, one after the other -/

/-- The port for a parameter and its index. -/
def portOf (a : Action) (direction : Direction) : Parameter × Nat → Port :=
  fun (p, i) => ⟨a.code, direction, i, p⟩

/-- The ports of one side, in order. -/
def portList (a : Action) (direction : Direction) : List Port :=
  (a.ports direction).parameters.zipIdx.map (a.portOf direction)

theorem getElem?_portList : (a.portList direction)[i]? = a.portAt? direction i := by
  rw [portList, List.getElem?_map, List.getElem?_zipIdx, Option.map_map, Nat.zero_add]
  rfl

theorem map_parameter_portList :
    (a.portList direction).map Port.parameter = (a.ports direction).parameters := by
  rw [portList, List.map_map]
  exact List.zipIdx_map_fst 0 _

theorem map_index_portList :
    (a.portList direction).map Port.index = List.range (a.ports direction).size := by
  rw [portList, List.map_map, List.range_eq_range']
  exact List.zipIdx_map_snd 0 _

/-- The context inlet is the first of the inlets that receives the context. -/
theorem contextInlet?_eq_find? :
    a.contextInlet? = (a.portList .inward).find? (·.parameter.type.isContext) := by
  have hindex : a.inlets.contextIndex? =
      (a.portList .inward).findIdx? (·.parameter.type.isContext) := by
    show (a.ports .inward).parameters.findIdx? _ = _
    rw [← map_parameter_portList, List.findIdx?_map]
    rfl
  rw [contextInlet?, hindex, List.find?_eq_bind_findIdx?_getElem?]
  simp only [getElem?_portList]
  rfl

end Action

/-- Values are read for one port after the other. -/
theorem Evaluator.collect_eq_mapM (a : Action) (direction : Direction)
    (read : Nat → Parameter → Except Error Value) (i : Nat) (ps : List Parameter) :
    collect read i ps = ((ps.zipIdx i).map (a.portOf direction)).mapM fun port => do
      let v ← read port.index port.parameter
      return (port.parameter.name, v) := by
  induction ps generalizing i with
  | nil => rfl
  | cons p rest ih =>
    rw [collect, ih, List.zipIdx_cons, List.map_cons, List.mapM_cons]
    simp only [bind_assoc, pure_bind]
    rfl

/-- Sources are looked for at one port after the other. -/
theorem Graph.firstUnbound?_eq_find? (g : Graph) (a : Action) (step i : Nat)
    (ps : List Parameter) :
    g.firstUnbound? step i ps = (((ps.zipIdx i).map (a.portOf .inward)).find? fun port =>
      !(port.parameter.type.isContext ∨
        g.binds.contains (.stepInlet ⟨step, port.index⟩))).map Port.parameter := by
  induction ps generalizing i with
  | nil => rfl
  | cons p rest ih =>
    rw [firstUnbound?, ih, List.zipIdx_cons, List.map_cons, List.find?_cons]
    simp only [Action.portOf]
    split <;> simp_all

namespace StepHandle

variable {h : StepHandle} {direction : Direction} {key : PortKey} {t : Terminal} {i : Nat}
  {e : Error}

/-- The terminal of a port of the step. -/
def terminal (h : StepHandle) : Direction → PortKey → Except Error Terminal
  | .inward, key => h.inlet key
  | .outward, key => h.outlet key

/-- The terminal for the index of a port of the step. -/
def terminalAt (h : StepHandle) (direction : Direction) (i : Nat) : Terminal :=
  match direction with
  | .inward => ⟨h.scope, .stepInlet ⟨h.ordinal, i⟩⟩
  | .outward => ⟨h.scope, .stepOutlet ⟨h.ordinal, i⟩⟩

theorem terminalAt_inj {j : Nat} : h.terminalAt direction i = h.terminalAt direction j ↔ i = j := by
  cases direction <;> simp [terminalAt]

theorem terminal_eq : h.terminal direction key =
    match h.action.port direction key with
    | .ok port => .ok (h.terminalAt direction port.index)
    | .error _ => .error (.unknownPort s!"step {h.ordinal} (`{h.action.code}`)" direction key) := by
  cases direction <;>
  · simp only [terminal, inlet, outlet, portIndex, terminalAt]
    cases h.action.port _ key <;> rfl

/-- A step finds the ports that its action finds, at the same indices. -/
theorem terminal_eq_ok_iff : h.terminal direction key = .ok t ↔
    ∃ port, h.action.port direction key = .ok port ∧ t = h.terminalAt direction port.index := by
  rw [terminal_eq]
  cases h.action.port direction key <;> simp [eq_comm]

theorem terminal_eq_error_iff : h.terminal direction key = .error e ↔
    (h.action.ports direction).indexOf? key = none ∧
      e = .unknownPort s!"step {h.ordinal} (`{h.action.code}`)" direction key := by
  have hunknown : (h.action.ports direction).indexOf? key = none ↔
      ∃ e, h.action.port direction key = .error e := by
    simp [Action.port_eq_error_iff]
  rw [hunknown, terminal_eq]
  cases h.action.port direction key <;> simp [eq_comm]

end StepHandle

/-! ## Names and indices -/

/-- Names and indices are inverse addresses of the ports on one side of an action, which have these
    parameters. -/
structure Action.Addressed (a : Action) (direction : Direction) (parameters : List Parameter) :
    Prop where
  /-- A name leads to an index exactly if the index leads to the name. -/
  inverse : ∀ name i, (∃ port, a.port direction (.code name) = .ok port ∧ port.index = i) ↔
    ∃ port, a.port direction (.index i) = .ok port ∧ port.parameter.name = name
  /-- Both lead to the same port. -/
  same : ∀ name port, a.port direction (.code name) = .ok port →
    a.port direction (.index port.index) = .ok port
  /-- The names of no parameter lead nowhere. -/
  unknownName : ∀ name e, a.port direction (.code name) = .error e ↔
    name ∉ parameters.map Parameter.name ∧
      e = .unknownPort s!"action `{a.code}`" direction (.code name)
  /-- The indices past the last parameter lead nowhere. -/
  unknownIndex : ∀ i e, a.port direction (.index i) = .error e ↔
    parameters.length ≤ i ∧ e = .unknownPort s!"action `{a.code}`" direction (.index i)
  /-- The ports in order are those at the indices, one after the other. -/
  listed : ∀ i port, (a.portList direction)[i]? = some port ↔
    a.port direction (.index i) = .ok port
  /-- Their indices increase. -/
  indices : (a.portList direction).map Port.index = List.range parameters.length
  /-- They have the parameters as declared. -/
  declared : (a.portList direction).map Port.parameter = parameters

/-- What goes over the ports of an action goes over them in order. -/
structure Action.Iterates (a : Action) : Prop where
  /-- The context inlet is the first that receives the context. -/
  context : a.contextInlet? = (a.portList .inward).find? (·.parameter.type.isContext)
  /-- Values are read for one port after the other. -/
  read : ∀ direction (read : Nat → Parameter → Except Error Value),
    Evaluator.collect read 0 (a.ports direction).parameters =
      (a.portList direction).mapM fun port => do
        let v ← read port.index port.parameter
        return (port.parameter.name, v)
  /-- A graph in which the action is a step is checked for sources of one inlet after the other. -/
  checked : ∀ (g : Graph) (step : Nat), g.firstUnbound? step 0 a.inlets.parameters =
    ((a.portList .inward).find? fun port =>
      !(port.parameter.type.isContext ∨
        g.binds.contains (.stepInlet ⟨step, port.index⟩))).map Port.parameter
  /-- A scope of the action lists its inlets. -/
  scope : ∀ s : Scope, s.algorithm = a →
    s.inlets = (a.portList .inward).map fun port => ⟨s.identity, .inlet port.index⟩

/-- Names and indices are inverse addresses of the ports on one side of a step, which have these
    parameters. -/
structure StepHandle.Addressed (h : StepHandle) (direction : Direction)
    (parameters : List Parameter) : Prop where
  /-- An address leads to the port of the step with the index that it has in the action. -/
  same : ∀ key t, h.terminal direction key = .ok t ↔ ∃ port,
    h.action.port direction key = .ok port ∧ t = h.terminalAt direction port.index
  /-- A name leads to an index exactly if the index leads to the port of that name. -/
  inverse : ∀ name i, h.terminal direction (.code name) = .ok (h.terminalAt direction i) ↔
    h.terminal direction (.index i) = .ok (h.terminalAt direction i) ∧
      (parameters.map Parameter.name)[i]? = some name
  /-- The names of no parameter lead nowhere. -/
  unknownName : ∀ name e, h.terminal direction (.code name) = .error e ↔
    name ∉ parameters.map Parameter.name ∧
      e = .unknownPort s!"step {h.ordinal} (`{h.action.code}`)" direction (.code name)
  /-- The indices past the last parameter lead nowhere. -/
  unknownIndex : ∀ i e, h.terminal direction (.index i) = .error e ↔
    parameters.length ≤ i ∧
      e = .unknownPort s!"step {h.ordinal} (`{h.action.code}`)" direction (.index i)

theorem Action.addressed (a : Action) (direction : Direction) :
    a.Addressed direction (a.ports direction).parameters where
  inverse name i := by
    constructor
    · rintro ⟨port, hport, rfl⟩
      exact ⟨port, port_code_iff.1 hport⟩
    · rintro ⟨port, hport, hname⟩
      -- What an index leads to stands at that index.
      obtain ⟨p, -, rfl⟩ := port_index_iff.1 hport
      exact ⟨_, port_code_iff.2 ⟨hport, hname⟩, rfl⟩
  same _ _ hport := (port_code_iff.1 hport).1
  unknownName name e := by rw [port_eq_error_iff, indexOf?_code_eq_none_iff]; rfl
  unknownIndex i e := by rw [port_eq_error_iff, indexOf?_index_eq_none_iff]; rfl
  listed i port := by
    rw [port_index_iff, getElem?_portList, portAt?, Option.map_eq_some_iff]
    simp only [eq_comm]
  indices := map_index_portList
  declared := map_parameter_portList

theorem Action.iterates (a : Action) : a.Iterates where
  context := contextInlet?_eq_find?
  read direction read := Evaluator.collect_eq_mapM a direction read 0 _
  checked g step := g.firstUnbound?_eq_find? a step 0 _
  scope s hs := by
    have hindices : (a.portList .inward).map Port.index = List.range a.inlets.size :=
      map_index_portList
    rw [Scope.inlets, hs, ← hindices, List.map_map]
    rfl

theorem StepHandle.addressed (h : StepHandle) (direction : Direction) :
    h.Addressed direction (h.action.ports direction).parameters where
  same _ _ := terminal_eq_ok_iff
  inverse name i := by
    rw [terminal_eq_ok_iff, terminal_eq_ok_iff]
    simp only [terminalAt_inj]
    constructor
    · rintro ⟨port, hport, rfl⟩
      obtain ⟨hindex, rfl⟩ := Action.port_code_iff.1 hport
      refine ⟨⟨port, hindex, rfl⟩, ?_⟩
      rw [List.getElem?_map, Action.getElem?_of_port hport]
      rfl
    · rintro ⟨-, hname⟩
      rw [List.getElem?_map] at hname
      obtain ⟨p, hp, rfl⟩ := Option.map_eq_some_iff.1 hname
      exact ⟨_, Action.port_code hp, rfl⟩
  unknownName name e := by rw [terminal_eq_error_iff, Action.indexOf?_code_eq_none_iff]; rfl
  unknownIndex i e := by rw [terminal_eq_error_iff, Action.indexOf?_index_eq_none_iff]; rfl

/-- Two lists of parameters make an action exactly if the names in each are distinct; otherwise they
    are refused for the first name that occurs before in its list, the inlets being looked at first.
    In an action that is made of them, whether or not it gets a graph, names and indices are inverse
    addresses of the ports on either side, only names that are not declared and indices past the
    last port are unknown, and what goes over the ports finds them by increasing index with the
    parameters as declared. The same addresses lead to the same indices in any step in which it is
    placed. -/
theorem names_and_indices_are_inverse (code : String) (inlets outlets : List Parameter) :
    ((∃ a, Action.ofParameters code inlets outlets = .ok a) ↔
      (inlets.map Parameter.name).Nodup ∧ (outlets.map Parameter.name).Nodup) ∧
    (∀ e, Action.ofParameters code inlets outlets = .error e ↔
      (∃ name, IsFirstRepeat (inlets.map Parameter.name) name ∧
        e = .duplicatePort code .inward name) ∨
      (inlets.map Parameter.name).Nodup ∧
        ∃ name, IsFirstRepeat (outlets.map Parameter.name) name ∧
          e = .duplicatePort code .outward name) ∧
    ∀ a, Action.ofParameters code inlets outlets = .ok a → ∀ graph,
      let placed : Action := { a with graph }
      placed.Addressed .inward inlets ∧ placed.Addressed .outward outlets ∧ placed.Iterates ∧
        ∀ h : StepHandle, h.action = placed →
          h.Addressed .inward inlets ∧ h.Addressed .outward outlets := by
  refine ⟨Action.exists_ofParameters_iff, fun e => Action.ofParameters_eq_error_iff,
    fun a ha graph => ?_⟩
  obtain ⟨rfl, rfl⟩ := Action.parameters_of_ofParameters ha
  refine ⟨Action.addressed _ .inward, Action.addressed _ .outward, Action.iterates _, ?_⟩
  rintro h hplaced
  have hin := h.addressed .inward
  have hout := h.addressed .outward
  rw [hplaced] at hin hout
  exact ⟨hin, hout⟩

/-- The join has its inlets under names and indices, in a step as well; with a name repeated among
    them it is refused. -/
theorem names_and_indices_are_inverse_join :
    (∃ port, Relay.join.port .inward (.index 1) = .ok port ∧ port.parameter.name = "left") ∧
      (StepHandle.mk 0 3 Relay.join).inlet (.code "left") = .ok ⟨0, .stepInlet ⟨3, 1⟩⟩ ∧
      (∃ e, Relay.join.port .inward (.index 3) = .error e) ∧
      Action.ofParameters "Join" [⟨"left", .any⟩, .context, ⟨"left", .string⟩] [] =
        .error (.duplicatePort "Join" .inward "left") := by
  obtain ⟨-, -, hjoin⟩ := names_and_indices_are_inverse "Join"
    [.context, ⟨"left", .any⟩, ⟨"right", .any⟩] [⟨"res", .any⟩]
  obtain ⟨haction, -, -, hstep⟩ := hjoin Relay.join rfl none
  obtain ⟨-, hrefused, -⟩ := names_and_indices_are_inverse "Join"
    [⟨"left", .any⟩, .context, ⟨"left", .string⟩] []
  refine ⟨(haction.inverse "left" 1).1 ⟨_, rfl, rfl⟩,
    ((hstep ⟨0, 3, Relay.join⟩ rfl).1.inverse "left" 1).2 ⟨rfl, rfl⟩,
    ⟨_, (haction.unknownIndex 3 _).2 ⟨Nat.le_refl 3, rfl⟩⟩, ?_⟩
  have hrepeat : IsFirstRepeat ["left", "context", "left"] "left" :=
    ⟨["left", "context"], [], rfl, by decide, by decide⟩
  exact (hrefused _).2 (.inl ⟨"left", hrepeat, rfl⟩)

end Dataflow
