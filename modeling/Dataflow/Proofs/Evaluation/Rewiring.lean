import Mathlib.Data.Option.Basic
import Dataflow.Proofs.Evaluation.Composition
import Dataflow.Proofs.Evaluation.Visits

/-!
# Rewired algorithms

What an evaluation does not look at. Of the binds of a graph it reads those of the outlets
and of the inlets that take a value, by destination; the binds of inlets that receive the
context, and the order of all, are nothing to it. Of a host function it sees the signature
and what the body returns for the arguments that it is called with.

An algorithm is *rewired* if, in it and in the algorithms among its steps, only such binds
differ (`Action.Rewired`). A catalog *resembles* another one if its strategies delegate to
rewired algorithms and their host functions differ only where they are not called
(`Catalog.Resembles`). Then the two evaluations are the same run, events included
(`Evaluator.evaluate_of_resembles`). The proof goes through the visits of one of them, as it
is known there which steps are evaluated and with what.
-/

namespace Dataflow

/-! ## Rewired algorithms -/

/-- The destination is an inlet that receives the context, in every step that it may be an
    inlet of. -/
def Graph.ReceivesContext (g : Graph) (d : Destination) : Prop :=
  ∃ port, d = .stepInlet port ∧ ∀ s ∈ g.steps, s.ordinal = port.step →
    ∀ p, s.action.inlets.parameters[port.port]? = some p → p.type.isContext = true

/-- An action and the same one with other binds of inlets that receive the context, in its
    graph or in those of its steps, at any depth. -/
inductive Action.Rewired : Action → Action → Prop
  /-- Nothing differs. -/
  | refl (a : Action) : Rewired a a
  /-- The steps are at the same places, with rewired actions, and all binds that are read are
      the same. -/
  | algorithm {a : Action} {g g' : Graph} (hg : a.graph = some g)
    (hplaces : g'.steps.map (fun s => (s.algorithm, s.ordinal)) =
      g.steps.map fun s => (s.algorithm, s.ordinal))
    (hactions : ∀ (k : Nat) (s s' : Step), g.steps[k]? = some s → g'.steps[k]? = some s' →
      Rewired s.action s'.action)
    (hbinds : ∀ d, ¬g.ReceivesContext d → g'.sourceOf? d = g.sourceOf? d) :
    Rewired a { a with graph := some g' }

/-- What it is for a graph to be rewired. -/
structure Graph.Rewired (g g' : Graph) : Prop where
  /-- The steps are at the same places. -/
  places : g'.steps.map (fun s => (s.algorithm, s.ordinal)) =
    g.steps.map fun s => (s.algorithm, s.ordinal)
  /-- Their actions are rewired. -/
  actions : ∀ (k : Nat) (s s' : Step), g.steps[k]? = some s → g'.steps[k]? = some s' →
    s.action.Rewired s'.action
  /-- The binds that are read are the same. -/
  binds : ∀ d, ¬g.ReceivesContext d → g'.sourceOf? d = g.sourceOf? d

namespace Action.Rewired

variable {a a' : Action} {g : Graph}

/-- A rewired action differs in the graph alone. -/
theorem exists_graph (h : a.Rewired a') : ∃ graph, a' = { a with graph } := by
  cases h with
  | refl => exact ⟨a.graph, by cases a; rfl⟩
  | @algorithm _ _ g' => exact ⟨some g', rfl⟩

theorem eq_of_plain (h : a.Rewired a') (hplain : a.graph = none) : a' = a := by
  cases h with
  | refl => rfl
  | algorithm hg =>
    rw [hplain] at hg
    cases hg

theorem exists_of_graph (h : a.Rewired a') (hg : a.graph = some g) :
    ∃ g', a' = { a with graph := some g' } ∧ g.Rewired g' := by
  cases h with
  | refl =>
    refine ⟨g, by cases a; cases hg; rfl, rfl, fun k s s' hs hs' => ?_, fun _ _ => rfl⟩
    obtain rfl := Option.some.inj (hs.symm.trans hs')
    exact .refl s.action
  | @algorithm _ h g' hh hplaces hactions hbinds =>
    obtain rfl := Option.some.inj (hg.symm.trans hh)
    exact ⟨g', rfl, hplaces, hactions, hbinds⟩

/-- An algorithm is rewired if its steps stay as they are and every bind that is read does. -/
theorem of_binds {binds : OrderedMap Destination Source} (hg : a.graph = some g)
    (h : ∀ d, ¬g.ReceivesContext d → binds.get? d = g.sourceOf? d) :
    a.Rewired { a with graph := some { g with binds } } := by
  refine .algorithm hg rfl (fun k s s' hs hs' => ?_) h
  obtain rfl := Option.some.inj (hs.symm.trans hs')
  exact .refl s.action

/-- A bind of an inlet that receives the context may be added or replaced. -/
theorem insert {d : Destination} (hg : a.graph = some g) (hd : g.ReceivesContext d)
    (source : Source) :
    a.Rewired { a with graph := some { g with binds := g.binds.insert d source } } := by
  refine of_binds hg fun d' hd' => ?_
  rw [OrderedMap.get?_insert, if_neg]
  · rfl
  · exact fun heq => hd' (heq ▸ hd)

/-- A bind of an inlet that receives the context may be removed. -/
theorem erase {d : Destination} (hg : a.graph = some g) (hd : g.ReceivesContext d) :
    a.Rewired { a with graph := some { g with binds := g.binds.erase d } } :=
  of_binds hg fun _ hd' => OrderedMap.get?_erase_of_ne fun heq => hd' (heq ▸ hd)

end Action.Rewired

namespace Graph

variable {g g' : Graph} {a : Action} {k i : Nat} {s : Step} {p : Parameter}

/-- In a consistent graph, the inlet of a step that receives the context is that of no other
    step. -/
theorem Consistent.receivesContext (h : g.Consistent a) (hs : g.steps[k]? = some s)
    (hp : s.action.inlets.parameters[i]? = some p) (hc : p.type.isContext = true) :
    g.ReceivesContext (.stepInlet ⟨k, i⟩) := by
  refine ⟨⟨k, i⟩, rfl, fun t ht hk q hq => ?_⟩
  obtain ⟨j, hj⟩ := List.getElem?_of_mem ht
  obtain rfl : j = k := (h.numbered j t hj).1.symm.trans hk
  obtain rfl := Option.some.inj (hs.symm.trans hj)
  obtain rfl := Option.some.inj (hp.symm.trans hq)
  exact hc

theorem not_receivesContext_outlet : ¬g.ReceivesContext (.outlet i) := by
  rintro ⟨_, h, -⟩
  cases h

theorem not_receivesContext_stepInlet (hs : s ∈ g.steps)
    (hp : s.action.inlets.parameters[i]? = some p) (hc : ¬p.type.isContext = true) :
    ¬g.ReceivesContext (.stepInlet ⟨s.ordinal, i⟩) := by
  rintro ⟨_, ⟨⟩, h⟩
  exact hc (h s hs rfl p hp)

namespace Rewired

variable (h : g.Rewired g')

include h

/-- At every place there is the same step with a rewired action, or none in both graphs. -/
theorem getElem?_cases (k : Nat) :
    (g.steps[k]? = none ∧ g'.steps[k]? = none) ∨
      ∃ s b, g.steps[k]? = some s ∧ g'.steps[k]? = some { s with action := b } ∧
        s.action.Rewired b := by
  have hplace := congrArg (·[k]?) h.places
  simp only [List.getElem?_map] at hplace
  cases hs : g.steps[k]? with
  | none =>
    rw [hs] at hplace
    exact .inl ⟨rfl, Option.map_eq_none_iff.1 hplace⟩
  | some s =>
    rw [hs] at hplace
    obtain ⟨s', hs', heq⟩ := Option.map_eq_some_iff.1 hplace
    obtain ⟨halgorithm, hordinal⟩ := Prod.mk.inj heq
    refine .inr ⟨s, s'.action, rfl, ?_, h.actions k s s' hs hs'⟩
    rw [hs', ← halgorithm, ← hordinal]
    cases s'
    rfl

theorem describeStepPort (direction : Direction) (port : StepPort) :
    g'.describeStepPort direction port = g.describeStepPort direction port := by
  rw [Graph.describeStepPort, Graph.describeStepPort]
  rcases h.getElem?_cases port.step with ⟨hs, hs'⟩ | ⟨s, b, hs, hs', hb⟩
  · rw [hs, hs']
  · obtain ⟨graph, rfl⟩ := hb.exists_graph
    rw [hs, hs']
    rfl

/-- The ports of rewired algorithms are described in the same way. -/
theorem describeSource (a : Action) (graph : Option Graph) (source : Source) :
    g'.describeSource { a with graph } source = g.describeSource a source := by
  cases source with
  | inlet i => rfl
  | stepOutlet port => exact h.describeStepPort .outward port
  | const v => rfl

theorem describeDestination (a : Action) (graph : Option Graph) (d : Destination) :
    g'.describeDestination { a with graph } d = g.describeDestination a d := by
  cases d with
  | stepInlet port => exact h.describeStepPort .inward port
  | outlet i => rfl

end Rewired

end Graph

/-- Values enter the slots of ports, which are a matter of the code and the ports alone. -/
theorem ValueTable.enter_setGraph (a : Action) (graph : Option Graph) (direction : Direction)
    (slot : Nat → Slot) (table : ValueTable) (entries : List (String × Value)) :
    table.enter { a with graph } direction slot entries = table.enter a direction slot entries := by
  induction entries generalizing table with
  | nil => rfl
  | cons entry rest ih =>
    have hport : ({ a with graph } : Action).port direction (.code entry.1) =
        a.port direction (.code entry.1) := rfl
    rw [enter, enter, hport]
    simp only [ih]

/-! ## Catalogs that resemble each other -/

/-- A target and one that cannot be told from it: the body of a host function may differ where
    it is not called, and an action may be rewired. -/
inductive Target.Resembles (calls : Record → Prop) : Target → Target → Prop
  /-- A host function of the same signature. -/
  | callable {c c' : Callable} (hsignature : c'.signature = c.signature)
    (hbody : ∀ args, calls args → c'.body args = c.body args) :
    Resembles calls (.callable c) (.callable c')
  /-- A rewired action. -/
  | action {a a' : Action} (h : a.Rewired a') : Resembles calls (.action a) (.action a')

/-- A strategy and one that differs in its target alone, and there only in what cannot be told. -/
structure Strategy.Resembles (calls : Record → Prop) (s s' : Strategy) : Prop where
  /-- Both are of actions with the same code. -/
  code : s'.action.code = s.action.code
  /-- Both are for the same engine. -/
  engine : s'.engine = s.engine
  /-- The targets cannot be told from each other. -/
  target : s.target.Resembles calls s'.target

theorem Strategy.resembles_refl (calls : Record → Prop) (s : Strategy) : s.Resembles calls s := by
  refine ⟨rfl, rfl, ?_⟩
  cases s.target with
  | callable c => exact .callable rfl fun _ _ => rfl
  | action a => exact .action (.refl a)

/-- The strategies of every action resemble each other, under the same engines in the same
    order; `calls code s` are the arguments that the body of a strategy may be called with for
    an action with the code. -/
def Catalog.Resembles (calls : String → Strategy → Record → Prop) (c c' : Catalog) : Prop :=
  ∀ code, List.Forall₂ (fun e e' => e'.1 = e.1 ∧ e.2.Resembles (calls code e.2) e'.2)
    (c.implementations.strategies code).entries (c'.implementations.strategies code).entries

theorem Catalog.resembles_refl (calls : String → Strategy → Record → Prop) (c : Catalog) :
    c.Resembles calls c :=
  fun _ => List.forall₂_same.2 fun e _ => ⟨rfl, e.2.resembles_refl _⟩

/-- Catalogs with strategies for the same code alone resemble each other if these strategies do. -/
theorem Catalog.resembles_of_single {calls : String → Strategy → Record → Prop} {c c' : Catalog}
    {code : String} {engines engines' : OrderedMap EngineKey Strategy}
    (hc : c.implementations.entries = .ofList [(code, engines)])
    (hc' : c'.implementations.entries = .ofList [(code, engines')])
    (h : List.Forall₂ (fun e e' => e'.1 = e.1 ∧ e.2.Resembles (calls code e.2) e'.2)
      engines.entries engines'.entries) : c.Resembles calls c' := by
  have hstrategies {pool : StrategyPool} {engines : OrderedMap EngineKey Strategy}
      (hpool : pool.entries = .ofList [(code, engines)]) (other : String) :
      pool.strategies other = if other = code then engines else ∅ := by
    have hget : (OrderedMap.ofList [(code, engines)]).get? other = _ :=
      OrderedMap.get?_insert ∅ code engines other
    rw [StrategyPool.strategies, hpool, hget]
    split <;> rfl
  intro other
  rw [hstrategies hc, hstrategies hc']
  split
  · next hcode => exact hcode ▸ h
  · exact .nil

namespace OrderedMap

variable {κ α : Type} {m n : OrderedMap κ α} {R : α → α → Prop}

/-- Maps with the same keys in the same order have related values under each of them. -/
theorem rel_get?_of_forall₂ [DecidableEq κ]
    (h : List.Forall₂ (fun e e' => e'.1 = e.1 ∧ R e.2 e'.2) m.entries n.entries) (k : κ) :
    Option.Rel R (m.get? k) (n.get? k) := by
  rw [get?, get?]
  generalize m.entries = l, n.entries = l' at h
  induction h with
  | nil => exact .none
  | cons hentry _ ih =>
    obtain ⟨hkey, hvalue⟩ := hentry
    rw [List.lookup_cons, List.lookup_cons, hkey]
    split
    · exact .some hvalue
    · exact ih

theorem rel_first?_of_forall₂
    (h : List.Forall₂ (fun e e' => e'.1 = e.1 ∧ R e.2 e'.2) m.entries n.entries) :
    Option.Rel R m.first? n.first? := by
  rw [first?, first?]
  generalize m.entries = l, n.entries = l' at h
  cases h with
  | nil => exact .none
  | cons hentry => exact .some hentry.2

end OrderedMap

/-- An evaluator and one whose catalog resembles its own, with the same configuration and the
    same context. -/
structure Evaluator.Resembles (calls : String → Strategy → Record → Prop) (ev ev' : Evaluator) :
    Prop where
  /-- The catalogs resemble each other. -/
  catalog : ev.catalog.Resembles calls ev'.catalog
  /-- The configuration is the same. -/
  config : ev'.config = ev.config
  /-- The context is the same. -/
  context : ev'.context = ev.context

namespace Evaluator

theorem expect_ok_bind {α β : Type} (a : α) (f : α → Run Halt β) :
    expect (.ok a) >>= f = f a :=
  Run.pure_bind a f

variable {calls : String → Strategy → Record → Prop} {ev ev' : Evaluator} {nested nested' : Nested}
  {n d : Nat} {a a' : Action} {g g' : Graph} {inputs : Record} {v : Visit}

namespace Resembles

variable (hev : ev.Resembles calls ev')

include hev

/-- Both evaluators choose strategies that resemble each other, or none for the same reason. -/
theorem chooseStrategy_cases (a : Action) :
    (∃ e, ev.chooseStrategy a = .error e ∧ ev'.chooseStrategy a = .error e) ∨
      ∃ s s', ev.chooseStrategy a = .ok s ∧ ev'.chooseStrategy a = .ok s' ∧
        s.Resembles (calls a.code s) s' := by
  have hentries := hev.catalog a.code
  have hengine : ev'.engine? = ev.engine? := by rw [engine?, engine?, hev.config, hev.context]
  have hchosen : Option.Rel (fun s s' => s.Resembles (calls a.code s) s') (ev.chosen? a)
      (ev'.chosen? a) := by
    rw [chosen?, chosen?, hengine]
    cases ev.engine? with
    | some engine => exact OrderedMap.rel_get?_of_forall₂ hentries engine
    | none => exact OrderedMap.rel_first?_of_forall₂ hentries
  have hempty : (ev'.strategies a).isEmpty = (ev.strategies a).isEmpty := by
    rw [OrderedMap.isEmpty, OrderedMap.isEmpty, Bool.eq_iff_iff, List.isEmpty_iff,
      List.isEmpty_iff, ← List.length_eq_zero_iff, ← List.length_eq_zero_iff]
    exact hentries.length_eq ▸ Iff.rfl
  have herror : ev'.choiceError a = ev.choiceError a := by
    rw [choiceError, choiceError, hengine, hempty]
  rw [chooseStrategy_eq, chooseStrategy_eq, herror]
  generalize ev.chosen? a = x, ev'.chosen? a = y at hchosen
  cases hchosen with
  | none => exact .inl ⟨_, rfl, rfl⟩
  | some h => exact .inr ⟨_, _, rfl, rfl, h⟩

theorem inject (a : Action) (inputs : Record) : ev'.inject a inputs = ev.inject a inputs := by
  simp only [Evaluator.inject, hev.context]

theorem logValues (e : Event) : ev'.logValues e = ev.logValues e := by
  simp only [Evaluator.logValues, hev.config]

/-! ### The steps of a rewired algorithm -/

/-- A step takes the same arguments from a rewired graph. -/
theorem arguments (h : g.Rewired g') {s : Step} (hs : s ∈ g.steps) {b : Action}
    (hb : s.action.Rewired b) (graph : Option Graph) (table : ValueTable) :
    ev'.arguments { a with graph } g' table { s with action := b } =
      ev.arguments a g table s := by
  obtain ⟨_, rfl⟩ := hb.exists_graph
  refine collect_congr fun i p hp => ?_
  rw [Nat.zero_add, Evaluator.argument, Evaluator.argument, hev.context]
  by_cases hc : p.type.isContext = true
  · rw [if_pos hc, if_pos hc]
  · -- An inlet that takes a value reads the same bind.
    rw [if_neg hc, if_neg hc, h.binds _ (Graph.not_receivesContext_stepInlet hs hp hc)]
    cases g.sourceOf? (.stepInlet ⟨s.ordinal, i⟩) with
    | none => rfl
    | some source =>
      show resolve { a with graph } g' table source = resolve a g table source
      rw [resolve, resolve, h.describeSource]

theorem evaluateStep (h : g.Rewired g') {s : Step} (hs : s ∈ g.steps) {b : Action}
    (hb : s.action.Rewired b) (graph : Option Graph) (table : ValueTable)
    (hnested : ∀ entries, ev.arguments a g table s = .ok entries →
      nested' b (.ofList entries) = nested s.action (.ofList entries)) :
    ev'.evaluateStep nested' d { a with graph } g' table { s with action := b } =
      ev.evaluateStep nested d a g table s := by
  rw [Evaluator.evaluateStep, Evaluator.evaluateStep, hev.arguments h hs hb graph table]
  simp only [hev.logValues]
  cases hargs : ev.arguments a g table s with
  | error e => rfl
  | ok entries =>
    rw [expect_ok_bind, expect_ok_bind, hnested entries hargs]
    obtain ⟨_, rfl⟩ := hb.exists_graph
    rfl

variable (hnested : ∀ role b args, ev.Nests nested d a inputs role b args →
  ∀ b', b.Rewired b' → nested' b' args = nested b args)

include hnested

/-- The steps of a rewired graph leave the same table. -/
theorem evaluateSteps (h : g.Rewired g') (hg : a.graph = some g) (graph : Option Graph)
    {start : ValueTable}
    (hstart : ValueTable.enter a .inward .inlet [] inputs.entries = .ok start) (k : Nat) :
    ev'.evaluateSteps nested' d { a with graph } g' (g'.steps.take k) start =
      ev.evaluateSteps nested d a g (g.steps.take k) start := by
  induction k with
  | zero => rfl
  | succ k ih =>
    rw [List.take_add_one, List.take_add_one, evaluateSteps_append, evaluateSteps_append, ih]
    refine Run.bind_congr_of_ok fun table htable => ?_
    rcases h.getElem?_cases k with ⟨hs, hs'⟩ | ⟨s, b, hs, hs', hb⟩
    · rw [hs, hs']
      rfl
    · have hstep : ev'.evaluateStep nested' d { a with graph } g' table { s with action := b } =
          ev.evaluateStep nested d a g table s :=
        hev.evaluateStep h (List.mem_of_getElem? hs) hb graph table fun entries hargs =>
          hnested _ _ _ (.step hg hs hstart htable hargs) b hb
      obtain ⟨_, rfl⟩ := hb.exists_graph
      rw [hs, hs']
      show (ev'.evaluateStep nested' d { a with graph } g' table _ >>= _) =
        (ev.evaluateStep nested d a g table s >>= _)
      rw [hstep]
      simp only [ValueTable.enter_setGraph]
      rfl

theorem evaluateGraph (h : g.Rewired g') (hg : a.graph = some g) (graph : Option Graph) :
    ev'.evaluateGraph nested' d { a with graph } g' inputs =
      ev.evaluateGraph nested d a g inputs := by
  have hresults (table : ValueTable) : results { a with graph } g' table = results a g table := by
    refine collect_congr fun i p _ => ?_
    rw [result, result, h.binds _ Graph.not_receivesContext_outlet]
    cases g.sourceOf? (.outlet (0 + i)) with
    | none => rw [h.describeDestination]
    | some source =>
      show resolve { a with graph } g' table source = resolve a g table source
      rw [resolve, resolve, h.describeSource]
  have hsteps {start : ValueTable}
      (hstart : ValueTable.enter a .inward .inlet [] inputs.entries = .ok start) :
      ev'.evaluateSteps nested' d { a with graph } g' g'.steps start =
        ev.evaluateSteps nested d a g g.steps start := by
    have := hev.evaluateSteps hnested h hg graph hstart (max g.steps.length g'.steps.length)
    rwa [List.take_of_length_le (Nat.le_max_left _ _),
      List.take_of_length_le (Nat.le_max_right _ _)] at this
  rw [Evaluator.evaluateGraph, Evaluator.evaluateGraph, ValueTable.enter_setGraph]
  refine Run.bind_congr_of_ok fun start hstart => ?_
  rw [hsteps (expect_eq_ok.1 hstart)]
  simp only [hresults]

omit hev in
/-- Strategies that resemble each other run in the same way, if they do not call a host
    function with arguments for which the two bodies may differ. -/
theorem runStrategy (hplain : a.graph = none) {s s' : Strategy} (hs : ev.chooseStrategy a = .ok s)
    {P : Record → Prop} (h : s.Resembles P s')
    (hcalls : ∀ c, s.target = .callable c → c.accepts inputs = true → P inputs) :
    Evaluator.runStrategy nested' a inputs s' = Evaluator.runStrategy nested a inputs s := by
  have htarget := h.target
  generalize hx : s.target = x, hy : s'.target = y at htarget
  cases htarget with
  | action hb =>
    rw [Evaluator.runStrategy, Evaluator.runStrategy, hx, hy]
    exact hnested _ _ _ (.delegation hplain hs hx) _ hb
  | @callable c c' hsignature hbody =>
    have hcall : s'.call inputs = s.call inputs := by
      have haccepts : c'.accepts inputs = c.accepts inputs := by
        rw [Callable.accepts, Callable.accepts, hsignature]
      rw [Strategy.call, Strategy.call, hx, hy, h.code, h.engine]
      dsimp only
      rw [haccepts, hsignature]
      by_cases haccepted : c.accepts inputs = true
      · rw [hbody inputs (hcalls c hx haccepted)]
      · rw [if_neg haccepted, if_neg haccepted]
    rw [Evaluator.runStrategy, Evaluator.runStrategy, hx, hy]
    dsimp only
    rw [hcall]

theorem compute (ha : a.Rewired a') (hcalls : a.graph = none → ∀ s c, ev.chooseStrategy a = .ok s →
      s.target = .callable c → c.accepts inputs = true → calls a.code s inputs) :
    ev'.compute nested' d a' inputs = ev.compute nested d a inputs := by
  cases hg : a.graph with
  | some g =>
    obtain ⟨g', rfl, h⟩ := ha.exists_of_graph hg
    rw [ev.compute_of_graph hg, ev'.compute_of_graph rfl]
    exact hev.evaluateGraph hnested h hg (some g')
  | none =>
    rw [ha.eq_of_plain hg, ev.compute_of_plain hg, ev'.compute_of_plain hg, select, select]
    rcases hev.chooseStrategy_cases a with ⟨e, hs, hs'⟩ | ⟨s, s', hs, hs', h⟩
    · rw [hs, hs']
      rfl
    · have hrun := runStrategy hnested hg hs h fun c => hcalls hg s c hs
      rw [hs, hs', expect_ok_bind, expect_ok_bind, h.engine]
      simp only [bind_assoc, pure_bind, hrun]

omit hnested in
/-- An evaluation is the same with a rewired action and an evaluator that resembles the first
    one, if the bodies agree where its visits call them. -/
theorem evaluateAction (ha : v.action.Rewired a')
    (hcalls : ∀ w, ev.Visits n v w → ∀ s c args, ev.CallsBody w s c args →
      calls w.action.code s args) :
    ev'.evaluateAction n v.depth a' v.inputs = ev.evaluateAction n v.depth v.action v.inputs := by
  induction n generalizing v a' with
  | zero => rfl
  | succ n ih =>
    have hinject : ev'.inject a' v.inputs = ev.inject v.action v.inputs := by
      obtain ⟨_, rfl⟩ := ha.exists_graph
      exact hev.inject v.action v.inputs
    have hvalidate (direction : Direction) (values : Record) :
        a'.validate direction values = v.action.validate direction values := by
      obtain ⟨_, rfl⟩ := ha.exists_graph
      exact v.action.validate_setGraph _ direction values
    rw [Evaluator.evaluateAction, Evaluator.evaluateAction, hinject, hvalidate]
    refine Run.bind_congr_of_ok fun validated hvalidated => ?_
    rw [expect_eq_ok] at hvalidated
    -- What is nested in a visit has its visits among those of the whole.
    have hcompute : ev'.compute (ev'.evaluateAction n (v.depth + 1)) v.depth a' validated =
        ev.compute (ev.evaluateAction n (v.depth + 1)) v.depth v.action validated := by
      refine hev.compute (fun role b args hnests b' hb => ?_) ha fun hplain s c hs hc haccepts => ?_
      · exact ih (v := ⟨role, v.depth + 1, b, args⟩) hb fun w hw =>
          hcalls w (.nested hvalidated hnests hw)
      · exact hcalls v .self s c validated ⟨hplain, hvalidated, hs, hc, haccepts⟩
    rw [hcompute]
    simp only [hvalidate]

end Resembles

/-- A whole evaluation is the same run with a rewired action and an evaluator that resembles the
    first one, if the bodies agree where its visits call them. -/
theorem evaluate_of_resembles (hev : ev.Resembles calls ev') (ha : a.Rewired a')
    (hcalls : ∀ v, ev.Visits n ⟨.caller, 0, a, inputs⟩ v → ∀ s c args, ev.CallsBody v s c args →
      calls v.action.code s args) :
    ev'.evaluate n a' inputs = ev.evaluate n a inputs := by
  have haction := hev.evaluateAction (v := ⟨.caller, 0, a, inputs⟩) ha hcalls
  rw [evaluate, evaluate, haction]
  cases ha with
  | refl => rfl
  | algorithm hg => rw [Action.isAlgorithm, Action.isAlgorithm, hg]; rfl

end Evaluator

end Dataflow
