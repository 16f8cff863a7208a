import Dataflow.Evaluation
import Dataflow.Proofs.Graph

/-!
# Assignments

An assignment gives a value to every outlet of the steps of a graph. It says what every
bind stands for, and with that what every step takes and gives and what the algorithm
results in, without any order of the steps (`Assignment.arguments?`, `Assignment.outputs`,
`Assignment.results?`).

In a graph that is in order, what a step takes depends on the outlets of earlier steps
alone (`Assignment.arguments?_congr`).
-/

namespace Dataflow

namespace Evaluator

variable {ps : List Parameter} {i : Nat} {e : Error}

theorem collect_congr {m : Type → Type} [Monad m] {read read' : Nat → Parameter → m Value}
    (h : ∀ j p, ps[j]? = some p → read (i + j) p = read' (i + j) p) :
    collect read i ps = collect read' i ps := by
  induction ps generalizing i with
  | nil => rfl
  | cons p rest ih =>
    have hfirst : read i p = read' i p := h 0 p rfl
    rw [collect, collect, hfirst, ih]
    intro j q hq
    rw [Nat.add_right_comm]
    exact h (j + 1) q hq

/-- Two ways to read that give the same value for every port collect the same values. -/
theorem exists_collect (read : Nat → Parameter → Except Error Value)
    (read' : Nat → Parameter → Option Value)
    (h : ∀ j p, ps[j]? = some p → ∃ v, read (i + j) p = .ok v ∧ read' (i + j) p = some v) :
    ∃ entries, collect read i ps = .ok entries ∧ collect read' i ps = some entries := by
  induction ps generalizing i with
  | nil => exact ⟨[], rfl, rfl⟩
  | cons p rest ih =>
    obtain ⟨v, hv, hv'⟩ := h 0 p rfl
    have hrest : ∀ j q, rest[j]? = some q →
        ∃ v, read (i + 1 + j) q = .ok v ∧ read' (i + 1 + j) q = some v := by
      intro j q hq
      rw [Nat.add_right_comm]
      exact h (j + 1) q hq
    obtain ⟨entries, hentries, hentries'⟩ := ih hrest
    refine ⟨(p.name, v) :: entries, ?_, ?_⟩
    · rw [collect, hentries]
      exact congrArg (· >>= _) hv
    · rw [collect, hentries']
      exact congrArg (· >>= _) hv'

/-- Reading stops at the first port that gives an error. -/
theorem collect_eq_error {read : Nat → Parameter → Except Error Value} {j : Nat} {p : Parameter}
    (hp : ps[j]? = some p) (he : read (i + j) p = .error e)
    (hbefore : ∀ l < j, ∀ q, ps[l]? = some q → ∃ v, read (i + l) q = .ok v) :
    collect read i ps = .error e := by
  induction ps generalizing i j with
  | nil => cases hp
  | cons q rest ih =>
    rw [collect, Except.bind_eq_error]
    cases j with
    | zero =>
      obtain rfl : q = p := Option.some.inj hp
      exact .inl he
    | succ j =>
      obtain ⟨v, hv⟩ := hbefore 0 (Nat.zero_lt_succ j) q rfl
      refine .inr ⟨v, hv, Except.bind_eq_error.2 (.inl ?_)⟩
      refine ih hp (by rwa [Nat.add_right_comm]) fun l hl r hr => ?_
      rw [Nat.add_right_comm]
      exact hbefore (l + 1) (Nat.succ_lt_succ hl) r hr

/-- Reading values in the order of their names gives them as they stand. -/
theorem collect_eq_some {read : Nat → Parameter → Option Value} {entries : List (String × Value)}
    (hnames : entries.map Prod.fst = ps.map Parameter.name)
    (hread : ∀ j p, ps[j]? = some p → read (i + j) p = (entries.map Prod.snd)[j]?) :
    collect read i ps = some entries := by
  induction ps generalizing i entries with
  | nil =>
    rw [List.map_eq_nil_iff.1 hnames]
    rfl
  | cons p rest ih =>
    obtain ⟨⟨_, v⟩, later, rfl, rfl, hlater⟩ := List.map_eq_cons_iff.1 hnames
    have hfirst : read i p = some v := hread 0 p rfl
    have hrest : collect read (i + 1) rest = some later := by
      refine ih hlater fun j q hq => ?_
      rw [Nat.add_right_comm]
      exact hread (j + 1) q hq
    rw [collect, hfirst, hrest]
    rfl

/-- So it gives a record if the values are those of the record. -/
theorem map_ofList_collect {read : Nat → Parameter → Option Value} {r : Record}
    (hkeys : r.keys = ps.map Parameter.name)
    (hread : ∀ j p, ps[j]? = some p → read j p = r.values[j]?) :
    (collect read 0 ps).map .ofList = some r := by
  rw [collect_eq_some hkeys fun j p hp => by rw [Nat.zero_add]; exact hread j p hp]
  exact congrArg some (OrderedMap.ext (OrderedMap.entries_ofList r.nodup))

end Evaluator

/-- Values of all outlets of the steps of a graph. -/
abbrev Assignment := StepPort → Value

namespace Assignment

variable (σ : Assignment)

/-- The value that a source stands for, given the inputs of the algorithm. -/
def value? (inputs : Record) : Source → Option Value
  | .const v => some v
  | .inlet i => inputs.values[i]?
  | .stepOutlet port => some (σ port)

/-- The value that an inlet of a step takes: the context, or what its bind stands for. -/
def argument? (context : Context) (g : Graph) (inputs : Record) (s : Step) (i : Nat)
    (p : Parameter) : Option Value :=
  if p.type.isContext then some (.context context)
  else (g.sourceOf? (.stepInlet ⟨s.ordinal, i⟩)).bind (σ.value? inputs)

/-- The inputs of a step, by the names of its inlets. -/
def arguments? (context : Context) (g : Graph) (inputs : Record) (s : Step) : Option Record :=
  (Evaluator.collect (σ.argument? context g inputs s) 0 s.action.inlets.parameters).map .ofList

/-- The outputs of a step, by the names of its outlets. -/
def outputs (s : Step) : Record :=
  .ofList (s.action.outlets.names.mapIdx fun i name => (name, σ ⟨s.ordinal, i⟩))

/-- The results of an algorithm, by the names of its outlets. -/
def results? (g : Graph) (inputs : Record) (algorithm : Action) : Option Record :=
  (Evaluator.collect (fun i _ => (g.sourceOf? (.outlet i)).bind (σ.value? inputs)) 0
    algorithm.outlets.parameters).map .ofList

variable {σ} {τ : Assignment} {context : Context} {g : Graph} {inputs : Record} {s : Step}
  {k : Nat}

theorem map_fst_outputs : (s.action.outlets.names.mapIdx
    fun i name => (name, σ ⟨s.ordinal, i⟩)).map Prod.fst = s.action.outlets.names := by
  refine List.ext_getElem? fun i => ?_
  rw [List.getElem?_map, List.getElem?_mapIdx]
  cases s.action.outlets.names[i]? <;> rfl

theorem entries_outputs : (σ.outputs s).entries =
    s.action.outlets.names.mapIdx fun i name => (name, σ ⟨s.ordinal, i⟩) :=
  OrderedMap.entries_ofList (by rw [map_fst_outputs]; exact s.action.outlets.nodup)

theorem keys_outputs : (σ.outputs s).keys = s.action.outlets.names := by
  rw [OrderedMap.keys, entries_outputs, map_fst_outputs]

theorem getElem?_values_outputs {i : Nat} (hi : i < s.action.outlets.size) :
    (σ.outputs s).values[i]? = some (σ ⟨s.ordinal, i⟩) := by
  rw [OrderedMap.values, entries_outputs, List.getElem?_map, List.getElem?_mapIdx,
    List.getElem?_eq_getElem (by simpa using hi)]
  rfl

/-- The outputs of a step are a record of its outlets with the assigned values. -/
theorem outputs_eq {r : Record} (hkeys : r.keys = s.action.outlets.names)
    (hvalues : ∀ i < s.action.outlets.size, r.values[i]? = some (σ ⟨s.ordinal, i⟩)) :
    σ.outputs s = r := by
  refine OrderedMap.ext_keys_values (keys_outputs.trans hkeys.symm) (List.ext_getElem? fun i => ?_)
  have hsize {r : Record} (h : r.keys = s.action.outlets.names) :
      r.values.length = s.action.outlets.size := by
    rw [OrderedMap.length_values, ← OrderedMap.length_keys, h, Ports.length_names]
  by_cases hi : i < s.action.outlets.size
  · rw [getElem?_values_outputs hi, hvalues i hi]
  · rw [List.getElem?_eq_none (by rw [hsize keys_outputs]; omega),
      List.getElem?_eq_none (by rw [hsize hkeys]; omega)]

/-- The outputs of a step depend on its own outlets alone. -/
theorem outputs_congr (h : ∀ port : StepPort, port.step = s.ordinal → σ port = τ port) :
    σ.outputs s = τ.outputs s := by
  -- Both are records of the same names, so their values decide.
  refine outputs_eq keys_outputs fun i hi => ?_
  rw [getElem?_values_outputs hi, h ⟨s.ordinal, i⟩ rfl]

/-- What a step takes depends on the outlets of earlier steps alone, if it reads nothing
    late. -/
theorem arguments?_congr (h : ∀ port : StepPort, port.step < s.ordinal → σ port = τ port)
    (hlate : ∀ i port, ¬g.ReadsLate s i port) :
    σ.arguments? context g inputs s = τ.arguments? context g inputs s := by
  rw [arguments?, arguments?, Evaluator.collect_congr]
  intro i p hp
  rw [Nat.zero_add, argument?, argument?]
  by_cases hc : p.type.isContext
  · rw [if_pos hc, if_pos hc]
  · rw [if_neg hc, if_neg hc]
    rcases hsource : g.sourceOf? (.stepInlet ⟨s.ordinal, i⟩) with - | source
    · rfl
    · -- Only what an outlet of a step stands for is a matter of the assignment.
      cases source with
      | const v => rfl
      | inlet i => rfl
      | stepOutlet port =>
        have hport : port.step < s.ordinal := by
          by_contra hge
          exact hlate i port ⟨⟨p, hp, by simpa using hc⟩, hsource, Nat.not_lt.1 hge⟩
        exact congrArg some (h port hport)

end Assignment

end Dataflow
