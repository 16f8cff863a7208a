import Dataflow.Proofs.Catalog.Command
import Dataflow.Proofs.Evaluation.Composition
import Dataflow.Proofs.Evaluation.Events

/-!
# Selection by history

Which strategy computes a plain action, in terms of the commands that filled the catalog. If a
setting of the context names an engine, it is the strategy of the only registration for the
action and that engine; otherwise it is that of the earliest registration for the action
(`Selects`). Only registrations that succeeded count, and those for other actions do not
matter, wherever they stand in between.

* `Catalog.isOnly_of_mem` and `Catalog.head?_strategiesOf`: look-ups among the strategies of an
  action, in terms of the registrations.
* `Evaluator.chooseStrategy_eq_iff_selects`: the choice is the selection.
* `Evaluator.chosen_of_mem_events`: what is logged as chosen, at whatever depth, was chosen.
* `selected_after`: the selection, at every depth of an evaluation.
-/

namespace Dataflow

/-- A setting names an engine: it is a string, or a number of that text. -/
inductive NamesEngine : Option Json → EngineKey → Prop
  | string (s : String) : NamesEngine (some (.string s)) ⟨s⟩
  | number (n : Number) : NamesEngine (some (.number n)) ⟨String.ofList n.text⟩

theorem Context.engineUnder?_eq_some_iff {c : Context} {key : String} {engine : EngineKey} :
    c.engineUnder? key = some engine ↔ NamesEngine (c.setting? key) engine := by
  rw [engineUnder?]
  constructor
  · intro h
    split at h
    · next s hs => exact hs ▸ Option.some.inj h ▸ .string s
    · next n hn => exact hn ▸ Option.some.inj h ▸ .number n
    · cases h
  · generalize c.setting? key = setting
    rintro (_ | _) <;> rfl

/-- Of some strategies, in order, this is the earliest that `P` holds of. -/
def Strategy.IsEarliest (P : Strategy → Prop) (l : List Strategy) (s : Strategy) : Prop :=
  ∃ before after, l = before ++ s :: after ∧ P s ∧ ∀ t ∈ before, ¬P t

/-- Of some strategies, in order, this is the only one that `P` holds of. -/
def Strategy.IsOnly (P : Strategy → Prop) (l : List Strategy) (s : Strategy) : Prop :=
  ∃ before after, l = before ++ s :: after ∧ P s ∧ ∀ t ∈ before ++ after, ¬P t

/-- What comes of the selection for the plain action of a code, if these are the strategies
    that were registered, in order, and this is the setting for the engine. -/
inductive Selects (registered : List Strategy) (setting : Option Json) (code : String) :
    Except Error Strategy → Prop
  /-- The setting names an engine: the only strategy for the action and the engine. -/
  | named {engine : EngineKey} {s : Strategy} (hname : NamesEngine setting engine)
    (honly : Strategy.IsOnly (fun t => t.action.code = code ∧ t.engine = engine) registered s) :
    Selects registered setting code (.ok s)
  /-- The setting names no engine: the earliest strategy for the action. -/
  | first {s : Strategy} (hname : ∀ engine, ¬NamesEngine setting engine)
    (hearliest : Strategy.IsEarliest (fun t => t.action.code = code) registered s) :
    Selects registered setting code (.ok s)
  /-- No strategy for the action was registered. -/
  | noImplementation (hnone : ∀ s ∈ registered, s.action.code ≠ code) :
    Selects registered setting code (.error (.noImplementation code))
  /-- The setting names an engine: there are strategies for the action, but none for it. -/
  | unknownEngine {engine : EngineKey} (hname : NamesEngine setting engine)
    (hsome : ∃ s ∈ registered, s.action.code = code)
    (hnone : ∀ s ∈ registered, s.action.code = code → s.engine ≠ engine) :
    Selects registered setting code (.error (.unknownEngine code engine))

/-! ## The strategies of an action -/

namespace Catalog

variable {l : List Strategy} {code : String} {engine : EngineKey} {s : Strategy}

theorem mem_strategiesOf : (engine, s) ∈ strategiesOf code l ↔
    s ∈ l ∧ s.action.code = code ∧ s.engine = engine := by
  simp only [strategiesOf, List.mem_map, List.mem_filter, decide_eq_true_eq, Prod.mk.injEq]
  constructor
  · rintro ⟨t, ⟨ht, hcode⟩, hengine, rfl⟩
    exact ⟨ht, hcode, hengine⟩
  · rintro ⟨hs, hcode, hengine⟩
    exact ⟨s, ⟨hs, hcode⟩, hengine, rfl⟩

theorem strategiesOf_eq_nil_iff : strategiesOf code l = [] ↔ ∀ s ∈ l, s.action.code ≠ code := by
  simp only [strategiesOf, List.map_eq_nil_iff, List.filter_eq_nil_iff, decide_eq_true_eq, ne_eq]

theorem strategiesOf_ne_nil_iff : strategiesOf code l ≠ [] ↔ ∃ s ∈ l, s.action.code = code := by
  rw [ne_eq, strategiesOf_eq_nil_iff]
  push Not
  rfl

theorem map_fst_strategiesOf (code : String) (l : List Strategy) :
    (strategiesOf code l).map Prod.fst = (l.filter (·.action.code = code)).map (·.engine) := by
  rw [strategiesOf, List.map_map]
  rfl

theorem not_mem_map_fst_strategiesOf : engine ∉ (strategiesOf code l).map Prod.fst ↔
    ∀ s ∈ l, s.action.code = code → s.engine ≠ engine := by
  simp [map_fst_strategiesOf]

/-- If the engines of an action are distinct, a strategy for one of them is the only one. -/
theorem isOnly_of_mem (hnodup : ((strategiesOf code l).map Prod.fst).Nodup)
    (h : (engine, s) ∈ strategiesOf code l) :
    Strategy.IsOnly (fun t => t.action.code = code ∧ t.engine = engine) l s := by
  obtain ⟨hs, hcode, hengine⟩ := mem_strategiesOf.1 h
  obtain ⟨before, after, rfl⟩ := List.append_of_mem hs
  refine ⟨before, after, rfl, ⟨hcode, hengine⟩, fun t ht => ?_⟩
  rintro ⟨htcode, htengine⟩
  -- The engine would occur among the engines of the action beside its place.
  have hsplit : ((before ++ s :: after).filter (·.action.code = code)).map (·.engine) =
      (before.filter (·.action.code = code)).map (·.engine) ++ engine ::
        (after.filter (·.action.code = code)).map (·.engine) := by
    simp [hcode, hengine]
  have hmem : engine ∈ ((before ++ after).filter (·.action.code = code)).map (·.engine) :=
    List.mem_map.2 ⟨t, List.mem_filter.2 ⟨ht, by simpa using htcode⟩, htengine⟩
  rw [map_fst_strategiesOf, hsplit, List.nodup_middle, List.nodup_cons] at hnodup
  rw [List.filter_append, List.map_append] at hmem
  exact hnodup.1 hmem

/-- The first strategy of an action is that of the earliest registration. -/
theorem head?_strategiesOf :
    ((strategiesOf code l).head?.map Prod.snd) = some s ↔
      Strategy.IsEarliest (fun t => t.action.code = code) l s := by
  have hfind : (strategiesOf code l).head?.map Prod.snd = l.find? (·.action.code = code) := by
    rw [strategiesOf, List.head?_map, Option.map_map, List.head?_filter]
    exact congrFun Option.map_id _
  rw [hfind, List.find?_eq_some_iff_append]
  simp only [decide_eq_true_eq, Bool.not_eq_true', decide_eq_false_iff_not]
  constructor
  · rintro ⟨hs, before, after, hl, hbefore⟩
    exact ⟨before, after, hl, hs, hbefore⟩
  · rintro ⟨before, after, hl, hs, hbefore⟩
    exact ⟨hs, before, after, hl, hbefore⟩

end Catalog

/-! ## The choice -/

namespace Evaluator

/-- The strategies of an action in a catalog that commands filled are those registered. -/
theorem entries_strategies (commands : List Catalog.Command) (config : Config)
    (context : Context) (a : Action) :
    ((Evaluator.mk ((∅ : Catalog).after commands) config context).strategies a).entries =
      Catalog.strategiesOf a.code ((∅ : Catalog).registered commands) :=
  Catalog.entries_strategies_after ∅ commands a.code

variable {ev : Evaluator} {a : Action} {registered : List Strategy}

theorem engine?_eq_some_iff {engine : EngineKey} :
    ev.engine? = some engine ↔ NamesEngine (ev.context.setting? ev.config.engineKey) engine :=
  Context.engineUnder?_eq_some_iff

variable (hentries : (ev.strategies a).entries = Catalog.strategiesOf a.code registered)

include hentries

theorem chosen?_eq_some_iff_selects {s : Strategy} :
    ev.chosen? a = some s ↔
      Selects registered (ev.context.setting? ev.config.engineKey) a.code (.ok s) := by
  have hnodup := hentries ▸ (ev.strategies a).nodup
  rw [chosen?]
  cases hengine : ev.engine? with
  | some engine =>
    dsimp only
    rw [OrderedMap.get?_eq_some_iff, hentries]
    constructor
    · intro hs
      exact .named (engine?_eq_some_iff.1 hengine) (Catalog.isOnly_of_mem hnodup hs)
    · rintro (⟨hname, before, after, rfl, ⟨hcode, rfl⟩, -⟩ | ⟨hname, -⟩)
      · obtain rfl := Option.some.inj (hengine.symm.trans (engine?_eq_some_iff.2 hname))
        exact Catalog.mem_strategiesOf.2 ⟨by simp, hcode, rfl⟩
      · exact absurd (engine?_eq_some_iff.1 hengine) (hname engine)
  | none =>
    have hunnamed : ∀ engine, ¬NamesEngine (ev.context.setting? ev.config.engineKey) engine := by
      intro engine hname
      rw [engine?_eq_some_iff.2 hname] at hengine
      cases hengine
    dsimp only
    rw [OrderedMap.first?, hentries, Catalog.head?_strategiesOf]
    constructor
    · exact .first hunnamed
    · rintro (⟨hname, -⟩ | ⟨-, hearliest⟩)
      · exact absurd hname (hunnamed _)
      · exact hearliest

theorem chooseStrategy_eq_noImplementation_iff_forall :
    ev.chooseStrategy a = .error (.noImplementation a.code) ↔
      ∀ s ∈ registered, s.action.code ≠ a.code := by
  rw [chooseStrategy_eq_noImplementation_iff, hentries, Catalog.strategiesOf_eq_nil_iff]

theorem chooseStrategy_eq_unknownEngine_iff_forall {engine : EngineKey} :
    ev.chooseStrategy a = .error (.unknownEngine a.code engine) ↔
      NamesEngine (ev.context.setting? ev.config.engineKey) engine ∧
        (∃ s ∈ registered, s.action.code = a.code) ∧
        ∀ s ∈ registered, s.action.code = a.code → s.engine ≠ engine := by
  rw [chooseStrategy_eq_unknownEngine_iff, engine?_eq_some_iff, OrderedMap.keys, hentries,
    Catalog.strategiesOf_ne_nil_iff, Catalog.not_mem_map_fst_strategiesOf]

/-- The choice for an action whose strategies are those registered is their selection. -/
theorem chooseStrategy_eq_iff_selects {r : Except Error Strategy} :
    ev.chooseStrategy a = r ↔
      Selects registered (ev.context.setting? ev.config.engineKey) a.code r := by
  cases r with
  | ok s => rw [chooseStrategy_eq_ok_iff, chosen?_eq_some_iff_selects hentries]
  | error e =>
    constructor
    · intro h
      rcases chooseStrategy_error_cases h with rfl | ⟨engine, rfl⟩
      · exact .noImplementation ((chooseStrategy_eq_noImplementation_iff_forall hentries).1 h)
      · obtain ⟨hname, hsome, hnone⟩ :=
          (chooseStrategy_eq_unknownEngine_iff_forall hentries).1 h
        exact .unknownEngine hname hsome hnone
    · intro h
      cases h with
      | noImplementation hnone =>
        exact (chooseStrategy_eq_noImplementation_iff_forall hentries).2 hnone
      | unknownEngine hname hsome hnone =>
        exact (chooseStrategy_eq_unknownEngine_iff_forall hentries).2 ⟨hname, hsome, hnone⟩

omit hentries

/-! ## Every depth -/

/-- What an event says of a choice is so. -/
def Chosen (ev : Evaluator) : Event → Prop
  | .strategySelected code engine _ =>
    ∃ a s, a.code = code ∧ ev.chooseStrategy a = .ok s ∧ s.engine = engine
  | _ => True

variable (ev)

/-- What an evaluation logs as chosen, for itself or for what is nested in it, was chosen. -/
theorem chosen_of_mem_events_evaluateAction (n d : Nat) :
    RelatedNested (fun _ x _ => ∀ e ∈ x.events, ev.Chosen e) (ev.evaluateAction n d)
      (ev.evaluateAction n d) := by
  induction n generalizing d with
  | zero =>
    intro a inputs e he
    cases he
  | succ n ih =>
    have halike : Alike (fun _ x _ => ∀ e ∈ x.events, ev.Chosen e) ev ev d d :=
      ev.alike_events (fun a s hs => ⟨a, s, rfl, hs, rfl⟩) (fun _ _ _ => trivial)
        (fun _ _ => trivial) fun _ _ => trivial
    exact halike.evaluateAction_succ (ih (d + 1))

theorem chosen_of_mem_events {limit : Nat} {a : Action} {inputs : Record} {e : Event}
    (h : e ∈ (ev.evaluate limit a inputs).events) : ev.Chosen e := by
  rcases ev.mem_events_evaluate h with ⟨_, _, rfl⟩ | h | ⟨_, _, rfl⟩
  · trivial
  · exact ev.chosen_of_mem_events_evaluateAction limit 0 a inputs e h
  · trivial

end Evaluator

/-- After commands on an empty catalog, some of which may have failed: what is chosen for a
    plain action is the selection among the strategies that the commands registered, and nothing
    else. At every depth the evaluation of a plain action runs the strategy selected for it or
    fails with the error of the selection, and whatever strategy the log of an evaluation shows
    is the one selected for its action. -/
theorem selected_after (commands : List Catalog.Command) (config : Config) (context : Context) :
    let ev : Evaluator := ⟨(∅ : Catalog).after commands, config, context⟩
    let selects := Selects ((∅ : Catalog).registered commands) (context.setting? config.engineKey)
    (∀ a r, ev.chooseStrategy a = r ↔ selects a.code r) ∧
    (∀ n d a inputs r, a.graph = none → selects a.code r →
      ev.evaluateAction (n + 1) d a inputs = do
        let inputs ← Evaluator.expect (a.validate .inward (ev.inject a inputs))
        let s ← Evaluator.expect r
        .log (.strategySelected a.code s.engine d)
        let outputs ← Evaluator.runStrategy (ev.evaluateAction n (d + 1)) a inputs s
        Evaluator.expect (a.validate .outward outputs)) ∧
    ∀ limit a inputs code engine depth,
      .strategySelected code engine depth ∈ (ev.evaluate limit a inputs).events →
        ∃ s, selects code (.ok s) ∧ s.engine = engine := by
  intro ev selects
  have hselects (a : Action) (r : Except Error Strategy) :
      ev.chooseStrategy a = r ↔ selects a.code r :=
    Evaluator.chooseStrategy_eq_iff_selects (Evaluator.entries_strategies commands config context a)
  refine ⟨hselects, fun n d a inputs r hplain hr => ?_,
    fun limit a inputs code engine depth h => ?_⟩
  · rw [Evaluator.evaluateAction]
    refine bind_congr fun validated => ?_
    rw [ev.compute_of_plain hplain, Evaluator.select, (hselects a r).2 hr]
    simp only [bind_assoc, pure_bind]
  · obtain ⟨a', s, rfl, hs, rfl⟩ := ev.chosen_of_mem_events h
    exact ⟨s, (hselects a' _).1 hs, rfl⟩

namespace Relay

/-- Commands that register two strategies for echoes, with a third one in between that is
    refused, and strategies for joins. -/
def registrations : List Catalog.Command :=
  [.declare "Echo" [⟨"a", .any⟩] [⟨"res", .any⟩],
    .declare "Join" join.inlets.parameters [⟨"res", .any⟩],
    .implement join engine pair, .implement echo spare pass, .implement echo spare pair,
    .delegate join spare echo, .implement echo engine pass]

end Relay

/-- Of the two strategies for echoes the later one is selected by its name, the earlier one if
    no engine is named; there is none for a third engine. -/
theorem selected_after_relay :
    let registered := (∅ : Catalog).registered Relay.registrations
    Selects registered (some (.string "host")) "Echo"
      (.ok ⟨Relay.echo, Relay.engine, .callable Relay.pass⟩) ∧
    Selects registered (some .null) "Echo"
      (.ok ⟨Relay.echo, Relay.spare, .callable Relay.pass⟩) ∧
    Selects registered (some (.string "third")) "Echo"
      (.error (.unknownEngine "Echo" ⟨"third"⟩)) := by
  have h (setting : Json) :=
    (selected_after Relay.registrations .default (.ofSettings 0 [("engine", setting)])).1 Relay.echo
  exact ⟨(h (.string "host") _).1 rfl, (h .null _).1 rfl, (h (.string "third") _).1 rfl⟩

end Dataflow
