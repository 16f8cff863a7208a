import Dataflow.Proofs.Evaluation.Order

/-!
# The walk of an action

What an evaluation does, as far as it can be told without any value. The *walk* of a plain
action is the choice of its strategy, then the walk of what this delegates to, one level
deeper; that of an algorithm goes through the steps in order, each announced and then walked
one level deeper (`Evaluator.walk`). It is a run that computes nothing: it ends where no
strategy can be chosen, and is cut off at a number of levels, as an evaluation is, because
strategies may delegate in circles.

An evaluation that logs no values logs its walk, from beginning to end if it succeeds and up to
some point otherwise (`evaluate_logs_walk`). The bookkeeping is done by `Run.Follows`, which
chaining respects: a computation that logs nothing may be put anywhere in the run that follows.
-/

namespace Dataflow

/-! ## Runs that follow others -/

/-- The first run logs what the second one does: all of it if it succeeds, and then the second
    one succeeds as well, and a beginning of it otherwise. -/
structure Run.Follows {ε δ α β : Type} (x : Run ε α) (y : Run δ β) : Prop where
  events : x.events <+: y.events
  ok : ∀ a, x.result = .ok a → ∃ b, y.result = .ok b ∧ x.events = y.events

namespace Run.Follows

variable {ε δ α α' β β' : Type} {x : Run ε α} {y : Run δ β} {f : α → Run ε α'}
  {g : β → Run δ β'}

/-- A run that logs nothing follows one that does nothing. -/
theorem of_silent {b : β} (h : x.events = []) : x.Follows (pure b : Run δ β) where
  events := h ▸ List.nil_prefix
  ok _ _ := ⟨b, rfl, h⟩

theorem trans {γ : Type} {z : Run δ γ} (hxy : x.Follows y) (hyz : y.Follows z) : x.Follows z where
  events := hxy.events.trans hyz.events
  ok a ha := by
    obtain ⟨b, hb, hevents⟩ := hxy.ok a ha
    obtain ⟨c, hc, hevents'⟩ := hyz.ok b hb
    exact ⟨c, hc, hevents.trans hevents'⟩

theorem bind (hx : x.Follows y)
    (hf : ∀ a b, x.result = .ok a → y.result = .ok b → (f a).Follows (g b)) :
    (x >>= f).Follows (y >>= g) := by
  rw [bind_eq, bind_eq]
  cases hresult : x.result with
  | error e =>
    -- The first run ends here; the second may go on.
    rw [bind_of_error hresult]
    refine ⟨hx.events.trans ?_, fun a ha => nomatch ha⟩
    cases hresult' : y.result with
    | error e' => exact bind_of_error hresult' g ▸ List.prefix_rfl
    | ok b => exact bind_of_ok hresult' g ▸ List.prefix_append _ _
  | ok a =>
    obtain ⟨b, hb, hevents⟩ := hx.ok a hresult
    have hrest := hf a b hresult hb
    rw [bind_of_ok hresult, bind_of_ok hb, hevents]
    refine ⟨(List.prefix_append_right_inj _).2 hrest.events, fun a' ha' => ?_⟩
    obtain ⟨b', hb', hevents'⟩ := hrest.ok a' ha'
    exact ⟨b', hb', congrArg _ hevents'⟩

/-- Runs that begin in the same way follow each other if what comes after does. -/
theorem same_bind {g : α → Run ε β'} (hf : ∀ a, x.result = .ok a → (f a).Follows (g a)) :
    (x >>= f).Follows (x >>= g) := by
  have hx : x.Follows x := ⟨List.prefix_rfl, fun a ha => ⟨a, ha, rfl⟩⟩
  refine hx.bind fun a b ha hb => ?_
  obtain rfl := Except.ok.inj (ha.symm.trans hb)
  exact hf a ha

/-- A computation that logs nothing may come first. -/
theorem silent_bind (hx : x.events = []) (hf : ∀ a, x.result = .ok a → (f a).Follows y) :
    (x >>= f).Follows y := by
  have h : (x >>= f).Follows ((pure () : Run δ Unit) >>= fun _ => y) :=
    (of_silent hx).bind fun a _ ha _ => hf a ha
  exact Run.pure_bind () (fun _ => y) ▸ h

/-- A computation that logs nothing may come last. -/
theorem bind_silent (hx : x.Follows y) (hf : ∀ a, (f a).events = []) : (x >>= f).Follows y := by
  have h : (x >>= f).Follows (y >>= pure) := hx.bind fun a _ _ _ => of_silent (hf a)
  exact Run.bind_pure y ▸ h

end Run.Follows

/-! ## Walks -/

namespace Evaluator

variable (ev : Evaluator)

/-- The walk of a strategy: that of the action that it delegates to, if it does. -/
def walkStrategy (walk : Action → Run Halt Unit) (s : Strategy) : Run Halt Unit :=
  match s.target with
  | .action target => walk target
  | .callable _ => pure ()

/-- The walk through steps: the event of each, then the walk of its action. -/
def walkSteps (walk : Action → Run Halt Unit) (depth : Nat) (algorithm : String) :
    List Step → Run Halt Unit
  | [] => pure ()
  | s :: rest => do
    .log (.executingStep algorithm s.ordinal s.action.code depth)
    walk s.action
    walkSteps walk depth algorithm rest

/-- The walk of an action at a depth, with so many levels left. -/
def walk : Nat → Nat → Action → Run Halt Unit
  | 0, _, _ => .fail .tooDeep
  | levels + 1, depth, a =>
    match a.graph with
    | some g => walkSteps (walk levels (depth + 1)) depth a.code g.steps
    | none => do
      let s ← ev.select depth a
      walkStrategy (walk levels (depth + 1)) s

variable {ev} {n d : Nat} {a A : Action} {g : Graph} {inputs : Record}

theorem walk_of_graph (hg : a.graph = some g) :
    ev.walk (n + 1) d a = walkSteps (ev.walk n (d + 1)) d a.code g.steps := by
  rw [walk, hg]

theorem walk_of_plain (hplain : a.graph = none) :
    ev.walk (n + 1) d a = ev.select d a >>= walkStrategy (ev.walk n (d + 1)) := by
  rw [walk, hplain]

/-! ### More levels -/

theorem walkSteps_follows {walk walk' : Action → Run Halt Unit}
    (h : ∀ b, (walk b).Follows (walk' b)) (d : Nat) (code : String) (l : List Step) :
    (walkSteps walk d code l).Follows (walkSteps walk' d code l) := by
  induction l with
  | nil => exact .of_silent rfl
  | cons s rest ih =>
    refine .same_bind fun _ _ => ?_
    exact (h s.action).bind fun _ _ _ _ => ih

/-- A walk with more levels goes on where the other is cut off, and is the same otherwise. -/
theorem walk_follows {n m : Nat} (hnm : n ≤ m) (d : Nat) (a : Action) :
    (ev.walk n d a).Follows (ev.walk m d a) := by
  induction n generalizing m d a with
  | zero => exact ⟨List.nil_prefix, fun _ h => nomatch h⟩
  | succ n ih =>
    obtain ⟨m, rfl⟩ := Nat.exists_eq_add_of_lt hnm
    have hdeeper (b : Action) : (ev.walk n (d + 1) b).Follows (ev.walk (n + m) (d + 1) b) :=
      ih (Nat.le_add_right n m) (d + 1) b
    rcases hg : a.graph with - | g
    · rw [walk_of_plain hg, walk_of_plain hg]
      refine .same_bind fun s _ => ?_
      rw [walkStrategy, walkStrategy]
      cases s.target with
      | action target => exact hdeeper target
      | callable c => exact .of_silent rfl
    · rw [walk_of_graph hg, walk_of_graph hg]
      exact walkSteps_follows hdeeper d a.code g.steps

/-! ### Evaluations -/

section

variable (hvalues : ev.config.traceValues = false) {nested : Nested}
  {walk : Action → Run Halt Unit} (hnested : ∀ b args, (nested b args).Follows (walk b))

include hvalues hnested

theorem evaluateStep_follows (d : Nat) (A : Action) (g : Graph) (table : ValueTable) (s : Step) :
    (ev.evaluateStep nested d A g table s).Follows
      (.log (.executingStep A.code s.ordinal s.action.code d) >>= fun _ => walk s.action) := by
  -- Without the values that it takes and gives, a step logs that it is executed.
  have hquiet (e : Event) : ev.logValues e = pure () := by
    rw [logValues, hvalues]
    rfl
  simp only [evaluateStep, hquiet, pure_bind, bind_pure]
  refine .silent_bind rfl fun entries _ => ?_
  exact .same_bind fun _ _ => hnested _ _

theorem evaluateSteps_follows (d : Nat) (A : Action) (g : Graph) (l : List Step)
    (table : ValueTable) :
    (ev.evaluateSteps nested d A g l table).Follows (walkSteps walk d A.code l) := by
  induction l generalizing table with
  | nil => exact .of_silent rfl
  | cons s rest ih =>
    rw [evaluateSteps, walkSteps, ← bind_assoc (Run.log _)]
    refine (evaluateStep_follows hvalues hnested d A g table s).bind fun outputs _ _ _ => ?_
    exact .silent_bind rfl fun table' _ => ih table'

theorem evaluateGraph_follows (d : Nat) (A : Action) (g : Graph) (inputs : Record) :
    (ev.evaluateGraph nested d A g inputs).Follows (walkSteps walk d A.code g.steps) := by
  refine .silent_bind rfl fun table _ => ?_
  refine (evaluateSteps_follows hvalues hnested d A g g.steps table).bind_silent fun table' => ?_
  cases results A g table' <;> rfl

omit hvalues in
theorem runStrategy_follows (a : Action) (inputs : Record) (s : Strategy) :
    (runStrategy nested a inputs s).Follows (walkStrategy walk s) := by
  rw [runStrategy, walkStrategy]
  cases s.target with
  | action target => exact hnested target inputs
  | callable c =>
    refine .of_silent ?_
    cases s.call inputs <;> rfl

end

/-- An evaluation that logs no values logs its walk, or a beginning of it. -/
theorem evaluateAction_follows (hvalues : ev.config.traceValues = false) (n d : Nat) (a : Action)
    (inputs : Record) : (ev.evaluateAction n d a inputs).Follows (ev.walk n d a) := by
  induction n generalizing d a inputs with
  | zero => exact ⟨List.nil_prefix, fun _ h => nomatch h⟩
  | succ n ih =>
    refine .silent_bind rfl fun validated _ => ?_
    refine Run.Follows.bind_silent ?_ fun outputs => rfl
    rcases hg : a.graph with - | g
    · rw [ev.compute_of_plain hg, walk_of_plain hg]
      exact .same_bind fun s _ => runStrategy_follows (ih (d + 1)) a validated s
    · rw [ev.compute_of_graph hg, walk_of_graph hg]
      exact evaluateGraph_follows hvalues (ih (d + 1)) d a g validated

end Evaluator

/-! ### The events of a walk -/

/-- An event of a step or of a strategy. -/
def Event.IsMove : Event → Prop
  | executingStep .. | strategySelected .. => True
  | _ => False

/-- The ordinal of the step that an event announces, if it announces one at the depth. -/
def Event.ordinalAt? (depth : Nat) : Event → Option Nat
  | executingStep _ step _ d => if d = depth then some step else none
  | _ => none

theorem Event.From.ordinalAt?_eq_none {d : Nat} {e : Event} (h : e.From (d + 1)) :
    e.ordinalAt? d = none := by
  cases e with
  | executingStep code step action depth =>
    have hlt : d < depth := h
    rw [ordinalAt?, if_neg (Nat.ne_of_gt hlt)]
  | _ => rfl

namespace Evaluator

variable {ev : Evaluator} {n d : Nat} {a A : Action} {g : Graph} {code : String} {l : List Step}
  {walk : Action → Run Halt Unit}

section

variable (hdeeper : ∀ b, ∀ e ∈ (walk b).events, e.From (d + 1) ∧ e.IsMove)

include hdeeper

theorem move_of_mem_events_walkSteps :
    ∀ e ∈ (walkSteps walk d code l).events, e.From d ∧ e.IsMove := by
  induction l with
  | nil =>
    intro e he
    cases he
  | cons s rest ih =>
    intro e he
    rcases Run.mem_events_bind.1 he with he | ⟨_, -, he⟩
    · obtain rfl := List.mem_singleton.1 he
      exact ⟨Nat.le_refl d, trivial⟩
    · rcases Run.mem_events_bind.1 he with he | ⟨_, -, he⟩
      · exact (hdeeper s.action e he).imp_left (·.mono (Nat.le_succ d))
      · exact ih e he

/-- A walk through steps that comes to its end announces each of them once, in order. -/
theorem ordinals_walkSteps (h : (walkSteps walk d code l).result = .ok ()) :
    (walkSteps walk d code l).events.filterMap (·.ordinalAt? d) = l.map Step.ordinal := by
  induction l with
  | nil => rfl
  | cons s rest ih =>
    -- What is nested announces steps of greater depths only.
    have hnested : (walk s.action).events.filterMap (·.ordinalAt? d) = [] :=
      List.filterMap_eq_nil_iff.2 fun e he => (hdeeper s.action e he).1.ordinalAt?_eq_none
    cases hwalk : (walk s.action).result with
    | error halt =>
      rw [walkSteps, Run.result_bind, Run.result_bind, hwalk] at h
      cases h
    | ok u =>
      have hrest : (walkSteps walk d code rest).result = .ok () := by
        rw [walkSteps, Run.result_bind, Run.result_bind, hwalk] at h
        exact h
      have hevents : (walkSteps walk d code (s :: rest)).events =
          .executingStep code s.ordinal s.action.code d ::
            ((walk s.action).events ++ (walkSteps walk d code rest).events) := by
        rw [walkSteps, Run.bind_eq, Run.bind_eq, Run.bind_of_ok rfl, Run.bind_of_ok hwalk]
        rfl
      rw [hevents, List.filterMap_cons, List.filterMap_append, hnested, ih hrest, Event.ordinalAt?,
        if_pos rfl]
      rfl

end

/-- A walk consists of steps and strategies, at its depth and greater ones. -/
theorem move_of_mem_events_walk (n d : Nat) (a : Action) :
    ∀ e ∈ (ev.walk n d a).events, e.From d ∧ e.IsMove := by
  induction n generalizing d a with
  | zero =>
    intro e he
    cases he
  | succ n ih =>
    rcases hg : a.graph with - | g
    · rw [walk_of_plain hg]
      intro e he
      rcases Run.mem_events_bind.1 he with he | ⟨s, -, he⟩
      · obtain ⟨s, -, rfl⟩ := ev.eq_of_mem_events_select he
        exact ⟨Nat.le_refl d, trivial⟩
      · rw [walkStrategy] at he
        cases htarget : s.target with
        | action target =>
          rw [htarget] at he
          exact (ih (d + 1) target e he).imp_left (·.mono (Nat.le_succ d))
        | callable c =>
          rw [htarget] at he
          cases he
    · rw [walk_of_graph hg]
      exact move_of_mem_events_walkSteps (ih (d + 1))

/-- The walk of a built algorithm, at whatever depth, announces its steps once, in order. -/
theorem ordinals_walk (hbuilt : A.Built) (hg : A.graph = some g)
    (h : (ev.walk n d A).result = .ok ()) :
    (ev.walk n d A).events.filterMap (·.ordinalAt? d) = List.range g.steps.length := by
  cases n with
  | zero => cases h
  | succ n =>
    rw [walk_of_graph hg] at h ⊢
    rw [ordinals_walkSteps (move_of_mem_events_walk n (d + 1)) h]
    exact (hbuilt.wellFormed_of_graph hg).toConsistent.map_ordinal

/-! ### Whole evaluations -/

variable {limit : Nat} {inputs outputs : Record} {halt : Halt}

theorem events_evaluate_of_ok (h : (ev.evaluateAction limit 0 a inputs).result = .ok outputs) :
    (ev.evaluate limit a inputs).events =
      .evaluationStarted a.code a.isAlgorithm :: (ev.evaluateAction limit 0 a inputs).events ++
        [.evaluationCompleted a.code outputs.size] := by
  rw [evaluate, Run.bind_eq, Run.bind_eq, Run.bind_of_ok rfl, Run.bind_of_ok h]
  rfl

theorem events_evaluate_of_error (h : (ev.evaluateAction limit 0 a inputs).result = .error halt) :
    (ev.evaluate limit a inputs).events =
      .evaluationStarted a.code a.isAlgorithm :: (ev.evaluateAction limit 0 a inputs).events := by
  rw [evaluate, Run.bind_eq, Run.bind_eq, Run.bind_of_ok rfl, Run.bind_of_error h]
  rfl

end Evaluator

/-- An evaluation that logs no values and succeeds logs its start, the walk of the action and its
    end, with the number of outputs; so it logs the same whatever the inputs are. One that fails
    logs its start and a beginning of that walk, and no end. The walk of a built algorithm
    announces every step once, in order. -/
theorem evaluate_logs_walk {ev : Evaluator} (hvalues : ev.config.traceValues = false)
    (a : Action) :
    (∀ limit inputs outputs, (ev.evaluate limit a inputs).result = .ok outputs →
      ∀ levels, limit ≤ levels → (ev.walk levels 0 a).result = .ok () ∧
        (ev.evaluate limit a inputs).events =
          .evaluationStarted a.code a.isAlgorithm :: (ev.walk levels 0 a).events ++
            [.evaluationCompleted a.code outputs.size]) ∧
    (∀ limit limit' inputs inputs' outputs outputs',
      (ev.evaluate limit a inputs).result = .ok outputs →
      (ev.evaluate limit' a inputs').result = .ok outputs' →
        (ev.evaluate limit a inputs).events = (ev.evaluate limit' a inputs').events) ∧
    (∀ limit inputs e, (ev.evaluate limit a inputs).result = .error (.failed e) →
      (∃ es, (ev.evaluate limit a inputs).events =
          .evaluationStarted a.code a.isAlgorithm :: es ∧
        ∀ levels, limit ≤ levels → es <+: (ev.walk levels 0 a).events) ∧
      ∀ code count, .evaluationCompleted code count ∉ (ev.evaluate limit a inputs).events) ∧
    ∀ levels depth A g, A.Built → A.graph = some g → (ev.walk levels depth A).result = .ok () →
      (ev.walk levels depth A).events.filterMap (·.ordinalAt? depth) =
        List.range g.steps.length := by
  have hfollows {limit levels : Nat} (inputs : Record) (hlevels : limit ≤ levels) :
      (ev.evaluateAction limit 0 a inputs).Follows (ev.walk levels 0 a) :=
    (Evaluator.evaluateAction_follows hvalues limit 0 a inputs).trans
      (Evaluator.walk_follows hlevels 0 a)
  have hok {limit levels : Nat} {inputs outputs : Record} (hlevels : limit ≤ levels)
      (h : (ev.evaluate limit a inputs).result = .ok outputs) :
      (ev.walk levels 0 a).result = .ok () ∧
        (ev.evaluate limit a inputs).events =
          .evaluationStarted a.code a.isAlgorithm :: (ev.walk levels 0 a).events ++
            [.evaluationCompleted a.code outputs.size] := by
    rw [ev.evaluate_result] at h
    obtain ⟨_, hwalk, hevents⟩ := (hfollows inputs hlevels).ok outputs h
    exact ⟨hwalk, by rw [Evaluator.events_evaluate_of_ok h, hevents]⟩
  refine ⟨fun limit inputs outputs h levels hlevels => hok hlevels h,
    fun limit limit' inputs inputs' outputs outputs' h h' => ?_, fun limit inputs e h => ?_,
    fun levels depth A g => Evaluator.ordinals_walk⟩
  · -- Both log the walk that has levels enough for both, and there are as many outputs as outlets.
    have hsize {limit : Nat} {inputs outputs : Record}
        (h : (ev.evaluate limit a inputs).result = .ok outputs) :
        outputs.size = a.outlets.size := by
      rw [ev.evaluate_result] at h
      rw [← OrderedMap.length_keys, ev.namesOutlets_evaluateAction limit 0 _ _ _ h,
        Ports.length_names]
    rw [(hok (Nat.le_max_left limit limit') h).2, (hok (Nat.le_max_right limit limit') h').2,
      hsize h, hsize h']
  · rw [ev.evaluate_result] at h
    rw [Evaluator.events_evaluate_of_error h]
    refine ⟨⟨_, rfl, fun levels hlevels => (hfollows inputs hlevels).events⟩,
      fun code count hmem => ?_⟩
    rcases List.mem_cons.1 hmem with heq | hmem
    · cases heq
    · exact (Evaluator.move_of_mem_events_walk limit 0 a _
        ((hfollows inputs (Nat.le_refl limit)).events.subset hmem)).2

/-- The relay logs its two steps, each with the strategy of its action; without its input it logs
    nothing but its start. -/
theorem evaluate_logs_walk_relay :
    Relay.evaluator.config.traceValues = false ∧
      (Relay.evaluator.evaluate 2 Relay.relay (Relay.single "a" (.bool true))).events =
        [.evaluationStarted "Relay" true, .executingStep "Relay" 0 "Echo" 0,
          .strategySelected "Echo" Relay.engine 1, .executingStep "Relay" 1 "Join" 0,
          .strategySelected "Join" Relay.engine 1, .evaluationCompleted "Relay" 1] ∧
      ∃ es, (Relay.evaluator.evaluate 2 Relay.relay ∅).events =
          .evaluationStarted "Relay" true :: es ∧
        es <+: (Relay.evaluator.walk 2 0 Relay.relay).events := by
  have hvalues : Relay.evaluator.config.traceValues = false := rfl
  obtain ⟨hok, -, herror, -⟩ := evaluate_logs_walk hvalues Relay.relay
  obtain ⟨-, hevents⟩ := hok 2 (Relay.single "a" (.bool true))
    (Relay.single "res" (.array [.bool true, .null])) rfl 2 (Nat.le_refl 2)
  obtain ⟨es, hes, hwalk⟩ := (herror 2 ∅ _ rfl).1
  exact ⟨hvalues, hevents, es, hes, hwalk 2 (Nat.le_refl 2)⟩

end Dataflow
