import Dataflow.Proofs.Evaluation.Assignment

/-!
# The value table

What the table of an evaluation holds when the steps before some step are done: the inputs
of the algorithm, the outlets of these steps, and no outlet of any other
(`ValueTable.Holds`). Against such a table the step gets the arguments that the assignment
gives it, unless it reads something late; then it fails, for the first inlet that does.

* `ValueTable.exists_enter`: entering the values of ports puts each into the slot of its
  port and changes no other slot.
* `ValueTable.Holds.arguments` and `ValueTable.Holds.arguments_of_readsLate`: the two cases
  for the arguments of a step.
-/

namespace Dataflow

namespace ValueTable

variable {a : Action} {slot : Nat → Slot} {table : ValueTable}

/-- Values in the order of the ports, from the port `i` on, enter their slots. -/
theorem exists_enter_drop (table : ValueTable) (direction : Direction) (i : Nat)
    {entries : List (String × Value)}
    (hnames : entries.map Prod.fst = (a.ports direction).names.drop i)
    (hslot : Function.Injective slot) :
    ∃ table', table.enter a direction slot entries = .ok table' ∧
      (∀ j < entries.length, table'.lookup (slot (i + j)) = entries[j]?.map Prod.snd) ∧
      ∀ other, (∀ j < entries.length, other ≠ slot (i + j)) →
        table'.lookup other = table.lookup other := by
  -- By induction on the entries, whose ports begin at any index.
  induction entries generalizing table i with
  | nil => exact ⟨table, rfl, fun j hj => absurd hj (Nat.not_lt_zero j), fun _ _ => rfl⟩
  | cons entry rest ih =>
    obtain ⟨name, v⟩ := entry
    have hname : (a.ports direction).names[i]? = some name := by
      rw [← List.head?_drop, ← hnames]
      rfl
    obtain ⟨p, hp, rfl⟩ := Option.map_eq_some_iff.1 (List.getElem?_map ▸ hname)
    have hrest : rest.map Prod.fst = (a.ports direction).names.drop (i + 1) := by
      rw [← List.tail_drop, ← hnames]
      rfl
    obtain ⟨table', henter, hin, hout⟩ := ih ((slot i, v) :: table) (i + 1) hrest
    refine ⟨table', ?_, fun j hj => ?_, fun other hother => ?_⟩
    · rw [enter, Action.port_code hp]
      exact henter
    · cases j with
      | zero =>
        -- The later ports have other slots.
        rw [Nat.add_zero, hout (slot i) fun j _ heq => by have := hslot heq; omega]
        simp
      | succ j =>
        rw [← Nat.add_assoc, Nat.add_right_comm]
        exact hin j (Nat.lt_of_succ_lt_succ hj)
    · rw [hout other fun j hj => ?_, List.lookup_cons]
      · have hfirst : other ≠ slot i := hother 0 (Nat.zero_lt_succ _)
        rw [beq_false_of_ne hfirst]
      · rw [Nat.add_right_comm]
        exact hother (j + 1) (Nat.succ_lt_succ hj)

/-- The values of a record with the names of all ports enter the slots of the ports. -/
theorem exists_enter (table : ValueTable) (direction : Direction) {r : Record}
    (hkeys : r.keys = (a.ports direction).names) (hslot : Function.Injective slot) :
    ∃ table', table.enter a direction slot r.entries = .ok table' ∧
      (∀ i < (a.ports direction).size, table'.lookup (slot i) = r.values[i]?) ∧
      ∀ other, (∀ i < (a.ports direction).size, other ≠ slot i) →
        table'.lookup other = table.lookup other := by
  have hsize : r.entries.length = (a.ports direction).size := by
    rw [← Ports.length_names, ← hkeys, OrderedMap.length_keys, OrderedMap.size]
  obtain ⟨table', henter, hin, hout⟩ :=
    exists_enter_drop table direction 0 hkeys hslot
  simp only [Nat.zero_add, hsize] at hin hout
  refine ⟨table', henter, fun i hi => ?_, hout⟩
  rw [hin i hi, OrderedMap.values, List.getElem?_map]

theorem stepOutlet_injective (k : Nat) :
    Function.Injective fun i => Slot.stepOutlet ⟨k, i⟩ :=
  fun _ _ h => (StepPort.mk.inj (Slot.stepOutlet.inj h)).2

/-- The table holds the inputs of the algorithm and what an assignment gives to the steps
    before `k`, and nothing of the other steps. -/
structure Holds (table : ValueTable) (g : Graph) (inputs : Record) (σ : Assignment) (k : Nat) :
    Prop where
  /-- The inlets of the algorithm have its inputs. -/
  inlets : ∀ i, table.lookup (.inlet i) = inputs.values[i]?
  /-- The outlets of the steps before `k` have the assigned values. -/
  produced : ∀ port : StepPort, port.step < k → g.HasPort .outward port →
    table.lookup (.stepOutlet port) = some (σ port)
  /-- The outlets of the other steps have no values. -/
  pending : ∀ port : StepPort, k ≤ port.step → table.lookup (.stepOutlet port) = none

variable {g : Graph} {A : Action} {inputs : Record} {σ : Assignment} {k : Nat}

/-- The inputs of an algorithm make the table that no step has added to. -/
theorem exists_holds_start (hkeys : inputs.keys = A.inlets.names) (g : Graph) :
    ∃ table, ValueTable.enter A .inward .inlet [] inputs.entries = .ok table ∧
      ∀ σ, table.Holds g inputs σ 0 := by
  have hsize : inputs.values.length = A.inlets.size := by
    rw [OrderedMap.length_values, ← OrderedMap.length_keys, hkeys, Ports.length_names]
  obtain ⟨table, henter, hin, hout⟩ :=
    exists_enter [] .inward hkeys fun _ _ => Slot.inlet.inj
  refine ⟨table, henter, fun σ =>
    ⟨fun i => ?_, fun _ h => absurd h (Nat.not_lt_zero _), fun port _ => ?_⟩⟩
  · by_cases hi : i < A.inlets.size
    · exact hin i hi
    · have hne (j : Nat) (hj : j < A.inlets.size) : Slot.inlet i ≠ .inlet j := by
        rintro ⟨⟩
        exact hi hj
      rw [hout _ hne, List.getElem?_eq_none (by omega)]
      rfl
  · rw [hout _ fun j _ => Slot.noConfusion]
    rfl

namespace Holds

/-- A step adds its outputs. -/
theorem exists_enter (h : table.Holds g inputs σ k) {s : Step} (hs : g.steps[k]? = some s)
    (hk : s.ordinal = k) :
    ∃ table', table.enter s.action .outward (fun i => .stepOutlet ⟨s.ordinal, i⟩)
        (σ.outputs s).entries = .ok table' ∧ table'.Holds g inputs σ (k + 1) := by
  obtain ⟨table', henter, hin, hout⟩ :=
    ValueTable.exists_enter table .outward Assignment.keys_outputs (stepOutlet_injective s.ordinal)
  -- The slots of other steps are not touched.
  have hother (port : StepPort) (hne : port.step ≠ k) :
      table'.lookup (.stepOutlet port) = table.lookup (.stepOutlet port) := by
    refine hout _ fun i _ heq => hne ?_
    rw [Slot.stepOutlet.inj heq, hk]
  refine ⟨table', henter, fun i => ?_, fun port hport hhas => ?_, fun port hport => ?_⟩
  · rw [hout _ fun j _ => Slot.noConfusion, h.inlets]
  · rcases Nat.lt_succ_iff_lt_or_eq.1 hport with hlt | heq
    · rw [hother port (by omega), h.produced port hlt hhas]
    · obtain ⟨s', hs', hi⟩ := hhas
      rw [heq, hs] at hs'
      obtain rfl := Option.some.inj hs'
      obtain ⟨step, i⟩ := port
      obtain rfl : step = s.ordinal := heq.trans hk.symm
      exact (hin i hi).trans (Assignment.getElem?_values_outputs hi)
  · rw [hother port (by omega), h.pending port (by omega)]

/-! ### What a step reads -/

variable (h : table.Holds g inputs σ k) (hkeys : inputs.keys = A.inlets.names)
  (hwf : g.WellFormed A) (ev : Evaluator) {s : Step} (hs : g.steps[k]? = some s)

include h hkeys

/-- The table gives what the assignment does to a source that is an outlet of an earlier
    step, if it is an outlet of a step. -/
theorem resolve {source : Source} (hsource : g.HasSource A source)
    (hearly : ∀ port, source = .stepOutlet port → port.step < k) :
    ∃ v, Evaluator.resolve A g table source = .ok v ∧ σ.value? inputs source = some v := by
  cases source with
  | const v => exact ⟨v, rfl, rfl⟩
  | inlet i =>
    have hi : i < inputs.values.length := by
      rw [OrderedMap.length_values, ← OrderedMap.length_keys, hkeys, Ports.length_names]
      exact hsource
    refine ⟨inputs.values[i], ?_, List.getElem?_eq_getElem hi⟩
    rw [Evaluator.resolve, ValueTable.resolve?, h.inlets i, List.getElem?_eq_getElem hi]
  | stepOutlet port =>
    refine ⟨σ port, ?_, rfl⟩
    rw [Evaluator.resolve, ValueTable.resolve?, h.produced port (hearly port rfl) hsource]

include hwf hs

theorem argument {i : Nat} {p : Parameter} (hp : s.action.inlets.parameters[i]? = some p)
    (hlate : ∀ port, ¬g.ReadsLate s i port) :
    ∃ v, ev.argument A g table s i p = .ok v ∧
      σ.argument? ev.context g inputs s i p = some v := by
  rw [Evaluator.argument, Assignment.argument?]
  by_cases hc : p.type.isContext
  · rw [if_pos hc, if_pos hc]
    exact ⟨_, rfl, rfl⟩
  · rw [if_neg hc, if_neg hc]
    have hk := (hwf.numbered k s hs).1
    obtain ⟨source, hsource⟩ := hwf.inlets k s hs i p hp (by simpa using hc)
    rw [← hk] at hsource
    rw [hsource]
    refine h.resolve hkeys (hwf.hasSource_of_sourceOf? hsource) fun port heq => ?_
    by_contra hge
    exact hlate port ⟨⟨p, hp, by simpa using hc⟩, heq ▸ hsource, by omega⟩

/-- A step that reads nothing late gets the arguments that the assignment gives it. -/
theorem arguments (hlate : ∀ i port, ¬g.ReadsLate s i port) :
    ∃ entries, ev.arguments A g table s = .ok entries ∧
      σ.arguments? ev.context g inputs s = some (.ofList entries) := by
  have hread : ∀ i p, s.action.inlets.parameters[i]? = some p →
      ∃ v, ev.argument A g table s (0 + i) p = .ok v ∧
        σ.argument? ev.context g inputs s (0 + i) p = some v := by
    intro i p hp
    rw [Nat.zero_add]
    exact h.argument hkeys hwf ev hs hp (hlate i)
  obtain ⟨entries, hentries, hentries'⟩ := Evaluator.exists_collect _ _ hread
  exact ⟨entries, hentries, by rw [Assignment.arguments?, hentries']; rfl⟩

/-- A step that reads something late fails for the first inlet that does. -/
theorem arguments_of_readsLate {i : Nat} {port : StepPort} (hlate : g.ReadsLate s i port)
    (hfirst : ∀ j < i, ∀ port, ¬g.ReadsLate s j port) :
    ev.arguments A g table s =
      .error (.missingValue A.code (g.describeSource A (.stepOutlet port))) := by
  obtain ⟨⟨p, hp, hc⟩, hsource, hstep⟩ := hlate
  refine Evaluator.collect_eq_error hp ?_ fun j hj q hq => ?_
  · rw [(hwf.numbered k s hs).1] at hstep
    rw [Nat.zero_add, Evaluator.argument, if_neg (by simp [hc]), hsource]
    show Evaluator.resolve A g table (.stepOutlet port) = _
    rw [Evaluator.resolve, ValueTable.resolve?, h.pending port hstep]
  · obtain ⟨v, hv, -⟩ := h.argument hkeys hwf ev hs hq (hfirst j hj)
    exact ⟨v, by rw [Nat.zero_add]; exact hv⟩

omit hs in
/-- The table after all steps gives the results that the assignment does. -/
theorem results (hk : k = g.steps.length) :
    ∃ entries, Evaluator.results A g table = .ok entries ∧
      σ.results? g inputs A = some (.ofList entries) := by
  have hread : ∀ i p, A.outlets.parameters[i]? = some p →
      ∃ v, Evaluator.result A g table (0 + i) = .ok v ∧
        (g.sourceOf? (.outlet (0 + i))).bind (σ.value? inputs) = some v := by
    intro i p hp
    obtain ⟨source, hsource⟩ := hwf.outlets i (List.getElem?_eq_some_iff.1 hp).1
    have hhas := hwf.hasSource_of_sourceOf? hsource
    rw [Nat.zero_add, Evaluator.result, hsource]
    refine h.resolve hkeys hhas fun port heq => ?_
    rw [heq] at hhas
    exact hk ▸ hhas.step_lt
  obtain ⟨entries, hentries, hentries'⟩ := Evaluator.exists_collect
    (fun i _ => Evaluator.result A g table i)
    (fun i _ => (g.sourceOf? (.outlet i)).bind (σ.value? inputs)) hread
  exact ⟨entries, hentries, by rw [Assignment.results?, hentries']; rfl⟩

end Holds

end ValueTable

end Dataflow
