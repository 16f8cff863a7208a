import Mathlib.Tactic.IntervalCases
import Dataflow.Proofs.Evaluation.Selection
import Dataflow.Proofs.Json.RoundTrip

/-!
# Engines named by integers

An integer comes to name an engine in several ways. A registration turns it into a name
(`EngineKey.ofInt`), a setting may hold it as JSON data or as its decimal text, and a context may be
asked for the engine directly. The name is always the usual decimal text of the integer
(`Decimal.ofList_intText`), so that all of them name the same engine
(`Context.NamesInteger.engineUnder?_eq`), and two integers name two engines
(`EngineKey.ofInt_injective`). Hence a strategy that is registered under an integer is chosen in the
contexts that name this integer and in none that name another one, and once it is registered the
decimal text of the integer is taken as well (`integers_name_engines`).
-/

namespace Dataflow

/-! ## Decimal text -/

namespace Decimal

theorem digitChar_eq {d : Nat} (h : d < 10) : digitChar d = Nat.digitChar d := by
  interval_cases d <;> rfl

theorem natText_eq_toDigits (n : Nat) : natText n = Nat.toDigits 10 n := by
  rw [natText]
  fun_induction digits n with
  | case1 n h => rw [Nat.toDigits_of_lt_base h, List.map_singleton, digitChar_eq h]
  | case2 n h ih =>
    have hlast : digitChar (n % 10) = Nat.digitChar (n % 10) :=
      digitChar_eq (Nat.mod_lt n (by decide))
    rw [List.map_append, ih, List.map_singleton, hlast,
      Nat.toDigits_of_base_le (by decide) (Nat.not_lt.1 h)]

/-- The text of an integer is the usual one. -/
theorem ofList_intText (n : Int) : String.ofList (intText n) = toString n := by
  have hnat (n : Nat) : String.ofList (natText n) = toString n := by
    rw [natText_eq_toDigits, Nat.toString_eq_ofList_toDigits]
  cases n with
  | ofNat n => exact hnat n
  | negSucc n =>
    show String.ofList ('-' :: natText (n + 1)) = "-" ++ toString (n + 1)
    rw [String.ofList_cons, hnat]
    rfl

theorem takeDigits_natText_eq (n : Nat) : takeDigits (natText n) = (digits n, []) := by
  have h : takeDigits (natText n ++ []) = (digits n, []) :=
    takeDigits_natText n fun _ hc => nomatch hc
  rwa [List.append_nil] at h

theorem natText_injective {m n : Nat} (h : natText m = natText n) : m = n := by
  have hread := takeDigits_natText_eq m
  rw [h, takeDigits_natText_eq] at hread
  exact digits_injective (Prod.mk.inj hread).1.symm

/-- The text of a natural number does not begin with a minus sign. -/
theorem natText_ne_cons_minus (n : Nat) (rest : List Char) : natText n ≠ '-' :: rest := by
  intro h
  have hread : takeDigits ('-' :: rest) = (digits n, []) := h ▸ takeDigits_natText_eq n
  cases (Prod.mk.inj hread).2

/-- An integer can be told from its text. -/
theorem intText_injective {m n : Int} (h : intText m = intText n) : m = n := by
  cases m with
  | ofNat m =>
    cases n with
    | ofNat n => exact congrArg Int.ofNat (natText_injective h)
    | negSucc n => exact absurd h (natText_ne_cons_minus _ _)
  | negSucc m =>
    cases n with
    | ofNat n => exact absurd h.symm (natText_ne_cons_minus _ _)
    | negSucc n =>
      have hsucc : m + 1 = n + 1 := natText_injective (List.cons.inj h).2
      exact congrArg Int.negSucc (Nat.succ.inj hsucc)

end Decimal

theorem EngineKey.ofInt_eq (n : Int) : ofInt n = ⟨toString n⟩ :=
  congrArg mk (Decimal.ofList_intText n)

/-- Two integers name two engines. -/
theorem EngineKey.ofInt_injective {m n : Int} (h : ofInt m = ofInt n) : m = n :=
  Decimal.intText_injective (String.ofList_inj.1 (congrArg name h))

/-- The text of an integer of 64 bits, signed or not, is read as the integer. -/
theorem Json.read?_toString {n : Int} (hlow : -powTwo 63 ≤ n) (hhigh : n < powTwo 64) :
    Json.read? (toString n) = some (.ofInt n) := by
  rw [← Decimal.ofList_intText]
  exact (Plain.int hlow hhigh).read?_text (by simp [depth])

/-! ## Contexts that name an integer -/

/-- A context names an integer as the engine under a key. -/
inductive Context.NamesInteger (key : String) (n : Int) : Context → Prop
  /-- The setting holds the integer. -/
  | data {c : Context} (h : c.setting? key = some (.ofInt n)) : NamesInteger key n c
  /-- The setting holds the decimal text. -/
  | text {c : Context} (h : c.setting? key = some (.string (toString n))) : NamesInteger key n c
  /-- The context was asked for the engine, which is the setting under the default key. -/
  | asked (c : Context) (identity : Identity) (hkey : key = defaultEngineKey) :
    NamesInteger key n (c.withEngine identity (.ofInt n))

/-- It is the engine that a registration under the integer has. -/
theorem Context.NamesInteger.engineUnder?_eq {key : String} {n : Int} {c : Context}
    (h : c.NamesInteger key n) : c.engineUnder? key = some (.ofInt n) := by
  cases h with
  | data h =>
    rw [engineUnder?, h]
    rfl
  | text h => rw [engineUnder?, h, EngineKey.ofInt_eq]
  | asked c identity hkey =>
    have hsetting : (c.withEngine identity (.ofInt n)).setting? key =
        some (.string (EngineKey.ofInt n).name) := by
      rw [setting?, withEngine, withSetting, OrderedMap.get?_insert, if_pos hkey]
    rw [engineUnder?, hsetting]

/-! ## Choosing by an engine -/

/-- If the context names an engine, the strategy that is chosen is the one registered for it. -/
theorem Evaluator.chooseStrategy_eq_ok_iff_mem {ev : Evaluator} {a : Action} {s : Strategy}
    {registered : List Strategy} {engine : EngineKey}
    (hentries : (ev.strategies a).entries = Catalog.strategiesOf a.code registered)
    (hengine : ev.engine? = some engine) :
    ev.chooseStrategy a = .ok s ↔
      s ∈ registered ∧ s.action.code = a.code ∧ s.engine = engine := by
  rw [chooseStrategy_eq_ok_iff, chosen?, hengine]
  dsimp only
  rw [OrderedMap.get?_eq_some_iff, hentries, Catalog.mem_strategiesOf]

/-! ## Engines that are taken -/

namespace Catalog

variable {c left : Catalog} {code : String} {engine : EngineKey} {s : Strategy}

/-- A strategy for the engine is registered for the action. -/
def Takes (c : Catalog) (code : String) (engine : EngineKey) : Prop :=
  code ∈ c.actions.entries.keys ∧ engine ∈ (c.implementations.strategies code).keys

theorem Takes.enter {entry : Entry} (h : c.Takes code engine) (hadmits : c.Admits entry) :
    (c.enter entry).Takes code engine := by
  refine ⟨?_, ?_⟩
  · cases entry with
    | action a =>
      rw [OrderedMap.keys, (appends_enter hadmits).1, List.map_append]
      exact List.mem_append_left _ h.1
    | algorithm a =>
      rw [OrderedMap.keys, (appends_enter hadmits).1, List.map_append]
      exact List.mem_append_left _ h.1
    | strategy s => exact h.1
  · rw [OrderedMap.keys, entries_strategies_enter hadmits, List.map_append]
    exact List.mem_append_left _ h.2

/-- An engine that is taken stays taken. -/
theorem Takes.after (h : c.Takes code engine) (commands : List Command) :
    (c.after commands).Takes code engine := by
  have henter (c : Catalog) (entry : Entry) (hadmits : c.Admits entry)
      (h : c.Takes code engine) : (c.enter entry).Takes code engine := h.enter hadmits
  exact after_induction henter h commands

/-- A registration takes its engine. -/
theorem takes_of_registerStrategy (h : (registerStrategy s).outcome c = (.ok (), left)) :
    left.Takes s.action.code s.engine := by
  rcases outcome_registerStrategy_cases c s with ⟨e, hfailed⟩ | ⟨hadmits, henter⟩
  · rw [hfailed] at h
    cases h
  · rw [henter] at h
    obtain rfl := (Prod.mk.inj h).2
    refine ⟨hadmits.1, ?_⟩
    rw [OrderedMap.keys, entries_strategies_enter hadmits, List.map_append]
    simp [strategiesOf, Entry.strategy?]

end Catalog

/-- The name of the engine of a 64-bit integer, signed or not, is its decimal text, which as JSON is
    read as the integer. A context that names the integer, as data, by its text or directly, names
    this engine, and no other integer has the same one. So after any commands on an empty catalog, a
    strategy that was registered under the integer is the one chosen for its action in the contexts
    that name this integer, and it is not chosen in those that name another one; and wherever a
    strategy is registered under the integer, one for the same action under the decimal text is
    refused from then on. -/
theorem integers_name_engines {n : Int} (hlow : -powTwo 63 ≤ n) (hhigh : n < powTwo 64) :
    (EngineKey.ofInt n).name = toString n ∧ Json.read? (toString n) = some (.ofInt n) ∧
    (∀ key context, Context.NamesInteger key n context →
      context.engineUnder? key = some (.ofInt n)) ∧
    (∀ m, EngineKey.ofInt m = .ofInt n → m = n) ∧
    (∀ commands config context m a s, Context.NamesInteger config.engineKey m context →
      s ∈ (∅ : Catalog).registered commands → s.action.code = a.code → s.engine = .ofInt n →
        ((Evaluator.mk ((∅ : Catalog).after commands) config context).chooseStrategy a = .ok s ↔
          m = n)) ∧
    ∀ c left s s', s.engine = .ofInt n → s'.engine = ⟨toString n⟩ →
      s'.action.code = s.action.code →
      (Catalog.registerStrategy s).outcome c = (.ok (), left) →
        ∀ commands, (Catalog.registerStrategy s').outcome (left.after commands) =
          (.error (.engineAlreadyExists s.action.code (.ofInt n)), left.after commands) := by
  refine ⟨congrArg EngineKey.name (EngineKey.ofInt_eq n), Json.read?_toString hlow hhigh,
    fun key context h => h.engineUnder?_eq, fun m h => EngineKey.ofInt_injective h,
    fun commands config context m a s hnames hs hcode hengine => ?_,
    fun c left s s' hengine hengine' hcode h commands => ?_⟩
  · rw [Evaluator.chooseStrategy_eq_ok_iff_mem
      (Evaluator.entries_strategies commands config context a) hnames.engineUnder?_eq, hengine]
    constructor
    · rintro ⟨-, -, hsame⟩
      exact (EngineKey.ofInt_injective hsame).symm
    · rintro rfl
      exact ⟨hs, hcode, rfl⟩
  · obtain ⟨hregistered, htaken⟩ := (Catalog.takes_of_registerStrategy h).after commands
    -- Both strategies have the same engine.
    rw [hengine] at htaken
    rw [← EngineKey.ofInt_eq] at hengine'
    rw [← hcode] at hregistered htaken ⊢
    rw [← hengine'] at htaken ⊢
    exact Catalog.outcome_registerStrategy_of_mem hregistered htaken

namespace Relay

/-- The strategy of the echo that is registered under an integer. -/
def numbered (n : Int) : Strategy := ⟨echo, .ofInt n, .callable pass⟩

/-- Commands that register it. -/
def numberings (n : Int) : List Catalog.Command :=
  [.declare "Echo" echo.inlets.parameters echo.outlets.parameters,
    .implement echo (.ofInt n) pass]

end Relay

/-- The least and the greatest of these integers. A context whose setting holds the least one, or
    its text, chooses what was registered under it; one that was asked for the greatest does not.
    The text of the greatest is taken once it is registered. -/
theorem integers_name_engines_extremes :
    (EngineKey.ofInt (-9223372036854775808)).name = "-9223372036854775808" ∧
      (∀ setting ∈ [Json.ofInt (-9223372036854775808), .string "-9223372036854775808"],
        (Evaluator.mk ((∅ : Catalog).after (Relay.numberings (-9223372036854775808))) .default
            (.ofSettings 0 [("engine", setting)])).chooseStrategy Relay.echo =
          .ok (Relay.numbered (-9223372036854775808))) ∧
      (Evaluator.mk ((∅ : Catalog).after (Relay.numberings (-9223372036854775808))) .default
          ((Context.ofSettings 0 []).withEngine 1 (.ofInt 18446744073709551615))).chooseStrategy
            Relay.echo ≠ .ok (Relay.numbered (-9223372036854775808)) ∧
      ((Catalog.registerStrategy
          ⟨Relay.echo, ⟨"18446744073709551615"⟩, .callable Relay.pair⟩).outcome
        ((∅ : Catalog).after (Relay.numberings 18446744073709551615))).1 =
          .error (.engineAlreadyExists "Echo" (.ofInt 18446744073709551615)) := by
  obtain ⟨hname, -, -, -, hchosen, -⟩ :=
    @integers_name_engines (-9223372036854775808) (by decide) (by decide)
  obtain ⟨-, -, -, -, -, htaken⟩ :=
    @integers_name_engines 18446744073709551615 (by decide) (by decide)
  have hmem : Relay.numbered (-9223372036854775808) ∈
      (∅ : Catalog).registered (Relay.numberings (-9223372036854775808)) := List.mem_cons_self
  refine ⟨hname, fun setting hsetting => ?_, fun h => ?_, ?_⟩
  · refine (hchosen _ _ _ _ _ _ ?_ hmem rfl rfl).2 rfl
    rcases List.mem_cons.1 hsetting with rfl | hsetting
    · exact .data rfl
    · rw [List.mem_singleton.1 hsetting]
      exact .text rfl
  · have hasked := (hchosen _ _ _ _ _ _ (.asked _ 1 rfl) hmem rfl rfl).1 h
    cases hasked
  · exact congrArg Prod.fst (htaken ((∅ : Catalog).after [.declare "Echo"
      Relay.echo.inlets.parameters Relay.echo.outlets.parameters]) _
      (Relay.numbered 18446744073709551615)
      ⟨Relay.echo, ⟨"18446744073709551615"⟩, .callable Relay.pair⟩ rfl rfl rfl rfl [])

end Dataflow
