import Dataflow.CommandLine
import Dataflow.Proofs.Run

/-!
# The arguments of an evaluation

An evaluation is asked for with the code of an action and any number of inputs, before the code or
after it, each of them given in one of five ways (`GivesInput`). How such arguments are written
does not matter: the inputs are read one after the other (`readRun_of_writes`), although the value
of an option that stands apart from its name is looked at later than the others. Nor do the options
in front of a command depend on what comes after it (`Grammar.scan_append`).
-/

namespace Dataflow.CommandLine

namespace Grammar

variable {σ : Type} {g : Grammar σ} {scanned : Scanned σ} {left : String × List String}

/-- There is no subcommand after a separator. -/
theorem subcommand_of_scanWords {args : List String} {pending : Pending σ} {state : σ}
    (h : g.scanWords args pending state = .ok scanned) : scanned.subcommand = none := by
  induction args generalizing pending state with
  | nil => exact Except.ok.inj h ▸ rfl
  | cons s rest ih =>
    obtain ⟨_, -, h⟩ := Except.bind_eq_ok.1 h
    exact ih h

/-- More arguments after a subcommand are arguments of the subcommand. -/
theorem scan_append {args : List String} {pending : Pending σ} {state : σ}
    (h : g.scan args pending state = .ok scanned) (hleft : scanned.subcommand = some left)
    (more : List String) :
    g.scan (args ++ more) pending state =
      .ok { scanned with subcommand := some (left.1, left.2 ++ more) } := by
  induction args generalizing pending state with
  | nil =>
    obtain rfl := Except.ok.inj h
    cases hleft
  | cons s rest ih =>
    rw [scan] at h
    rw [List.cons_append, scan]
    split at h
    · next hsub =>
      obtain rfl := Except.ok.inj h
      rw [if_pos hsub, ← Option.some.inj hleft]
    · next hsub =>
      rw [if_neg hsub]
      split at h
      · rw [subcommand_of_scanWords h] at hleft
        cases hleft
      · next hword =>
        obtain ⟨⟨p, st⟩, htake, h⟩ := Except.bind_eq_ok.1 h
        rw [htake]
        exact ih h

end Grammar

/-! ## The arguments of an evaluation -/

/-- The grammar of the arguments of an evaluation. -/
def runGrammar : Grammar RunArguments where
  flags := [inputFlag, helpFlag]
  subcommands := []
  word s given := if given.code.isSome then none else some { given with code := some s }

/-- The arguments that give an input by its text. -/
inductive GivesInput (s : String) : List String → Prop
  /-- The long name of the option, an equals sign and the text. -/
  | long : GivesInput s ["--input=" ++ s]
  /-- The long name, then the text unless it starts with a dash. -/
  | longNext (h : Token.ofArgument s = .word s) : GivesInput s ["--input", s]
  /-- The short name and the text, unless it is empty or starts with an equals sign. -/
  | short (h : attachedValue s.toList = some s) : GivesInput s ["-i" ++ s]
  /-- The short name, an equals sign and the text. -/
  | shortEquals : GivesInput s ["-i=" ++ s]
  /-- The short name, then the text unless it starts with a dash. -/
  | shortNext (h : Token.ofArgument s = .word s) : GivesInput s ["-i", s]

/-- The arguments that give the texts of inputs, in order, and the code of an action somewhere in
    between, if there is one. -/
inductive Writes : Option String → List String → List String → Prop
  /-- No arguments. -/
  | nil : Writes none [] []
  /-- An input, then the other arguments. -/
  | input {code : Option String} {s : String} {texts args later : List String}
    (h : GivesInput s args) (hlater : Writes code texts later) :
    Writes code (s :: texts) (args ++ later)
  /-- The code, then inputs only. -/
  | code {code : String} {texts later : List String} (h : Token.ofArgument code = .word code)
    (hlater : Writes none texts later) : Writes (some code) texts (code :: later)

/-- One more input. -/
def RunArguments.addInput (s : String) (given : RunArguments) :
    Except UsageError RunArguments := do
  return { given with inputs := given.inputs ++ [← readInput s] }

/-- The input that is still to be looked at, if there is one. -/
def hold : Option String → Pending RunArguments
  | some s => .held RunArguments.addInput s
  | none => .nothing

theorem settle_hold (held : Option String) (given : RunArguments) :
    (hold held).settle given =
      held.toList.mapM readInput >>= fun inputs =>
        return { given with inputs := given.inputs ++ inputs } := by
  cases held with
  | none => simp [hold, Pending.settle, pure, Except.pure, bind, Except.bind]
  | some s =>
    show (do return { given with inputs := given.inputs ++ [← readInput s] }) = _
    simp

/-- What the arguments of an evaluation add to what has been read. -/
def readFrom (args : List String) (pending : Pending RunArguments) (given : RunArguments) :
    Except UsageError RunArguments := do
  let scanned ← runGrammar.scan args pending given
  scanned.pending.settle scanned.state

/-- There is no subcommand of an evaluation. -/
theorem readFrom_cons {arg : String} (h : Token.ofArgument arg ≠ .separator) (rest : List String)
    (pending : Pending RunArguments) (given : RunArguments) :
    readFrom (arg :: rest) pending given =
      runGrammar.take arg pending given >>= fun (pending, given) =>
        readFrom rest pending given := by
  rw [readFrom, Grammar.scan, if_neg (by simp [runGrammar])]
  split
  · exact absurd ‹_› h
  · rw [bind_assoc]
    rfl

/-- An argument is the option for inputs, with a text attached to it or without. -/
inductive IsInputFlag (arg : String) : Option String → Prop
  | long {attached : Option String} (h : Token.ofArgument arg = .long "input" attached) :
    IsInputFlag arg attached
  | short {rest : List Char} (h : Token.ofArgument arg = .short ('i' :: rest)) :
    IsInputFlag arg (attachedValue rest)

/-- An input is given by the option with its text attached to it or after it. -/
theorem isInputFlag_of_givesInput {s : String} {args : List String} (h : GivesInput s args) :
    (∃ arg, args = [arg] ∧ IsInputFlag arg (some s)) ∨
      ∃ arg, args = [arg, s] ∧ IsInputFlag arg none ∧ Token.ofArgument s = .word s := by
  cases h with
  | long =>
    refine .inl ⟨_, rfl, .long ?_⟩
    rw [Token.ofArgument, String.toList_append]
    simp [splitAtEquals]
  | longNext h => exact .inr ⟨_, rfl, .long rfl, h⟩
  | short h =>
    refine .inl ⟨_, rfl, ?_⟩
    rw [← h]
    refine .short ?_
    rw [Token.ofArgument, String.toList_append]
    rfl
  | shortEquals =>
    refine .inl ⟨_, rfl, ?_⟩
    have hs : attachedValue ('=' :: s.toList) = some s := by
      rw [attachedValue, String.ofList_toList]
    rw [← hs]
    refine .short ?_
    rw [Token.ofArgument, String.toList_append]
    rfl
  | shortNext h => exact .inr ⟨_, rfl, @IsInputFlag.short _ [] rfl, h⟩

/-- The option for inputs is recognized by either of its names. -/
theorem readFrom_inputFlag {arg : String} {attached : Option String} (h : IsInputFlag arg attached)
    (rest : List String) (pending : Pending RunArguments) (given : RunArguments) :
    readFrom (arg :: rest) pending given =
      inputFlag.take attached pending given >>= fun (pending, given) =>
        readFrom rest pending given := by
  cases h with
  | long h =>
    rw [readFrom_cons (by rw [h]; simp)]
    simp only [Grammar.take, h]
    rfl
  | short h =>
    rw [readFrom_cons (by rw [h]; simp)]
    simp only [Grammar.take, h]
    rfl

/-- A text is attached to the option. -/
theorem readFrom_attached {arg s : String} (h : IsInputFlag arg (some s)) (rest : List String)
    (held : Option String) (given : RunArguments) :
    readFrom (arg :: rest) (hold held) given =
      (held.toList ++ [s]).mapM readInput >>= fun inputs =>
        readFrom rest (hold none) { given with inputs := given.inputs ++ inputs } := by
  rw [readFrom_inputFlag h]
  show ((do return (hold none, ← RunArguments.addInput s (← (hold held).settle given))) >>= _) = _
  rw [settle_hold]
  simp [RunArguments.addInput]

/-- A text follows the option. -/
theorem readFrom_next {arg s : String} (h : IsInputFlag arg none)
    (hs : Token.ofArgument s = .word s) (rest : List String) (held : Option String)
    (given : RunArguments) :
    readFrom (arg :: s :: rest) (hold held) given =
      held.toList.mapM readInput >>= fun inputs =>
        readFrom rest (hold (some s)) { given with inputs := given.inputs ++ inputs } := by
  have hword (given : RunArguments) :
      readFrom (s :: rest) (.awaited RunArguments.addInput) given =
        readFrom rest (hold (some s)) given := by
    rw [readFrom_cons (by rw [hs]; simp)]
    simp only [Grammar.take, hs]
    rfl
  rw [readFrom_inputFlag h]
  show ((do return (Pending.awaited RunArguments.addInput, ← (hold held).settle given)) >>= _) = _
  rw [settle_hold]
  simp [hword]

/-- The code of the action. -/
theorem readFrom_code {code : String} (h : Token.ofArgument code = .word code)
    (rest : List String) (held : Option String) {given : RunArguments}
    (hgiven : given.code = none) :
    readFrom (code :: rest) (hold held) given =
      held.toList.mapM readInput >>= fun inputs =>
        readFrom rest (hold none) ⟨some code, given.inputs ++ inputs⟩ := by
  have hword : runGrammar.take code (hold held) given = do
      return (hold none, ← (hold held).settle { given with code := some code }) := by
    have hg : runGrammar.word code given = some { given with code := some code } := by
      simp [runGrammar, hgiven]
    simp only [Grammar.take, h]
    cases held <;> simp [hold, Grammar.takeWord, hg]
  rw [readFrom_cons (by rw [h]; simp), hword, settle_hold]
  simp

/-- Arguments are read one after the other, the text that is held first. -/
theorem readFrom_of_writes {code : Option String} {texts args : List String}
    (h : Writes code texts args) (held : Option String) {given : RunArguments}
    (hgiven : code.isSome → given.code = none) :
    readFrom args (hold held) given =
      (held.toList ++ texts).mapM readInput >>= fun inputs =>
        return ⟨code.or given.code, given.inputs ++ inputs⟩ := by
  induction h generalizing held given with
  | nil =>
    show (hold held).settle given = _
    rw [settle_hold, List.append_nil]
    rfl
  | @input code s texts args later h hlater ih =>
    have hread (held : Option String) (inputs : List (String × Json)) :=
      @ih held ⟨given.code, inputs⟩ hgiven
    rcases isInputFlag_of_givesInput h with ⟨arg, rfl, harg⟩ | ⟨arg, rfl, harg, hs⟩
    · rw [List.singleton_append, readFrom_attached harg]
      simp [hread]
    · show readFrom (arg :: s :: later) (hold held) given = _
      rw [readFrom_next harg hs]
      simp [hread]
  | code h hlater ih =>
    rw [readFrom_code h _ _ (hgiven rfl)]
    simp [ih none]

/-- The arguments of an evaluation come to the code and to the inputs as they are read one after
    the other. -/
theorem readRun_of_writes {code : String} {texts args : List String}
    (h : Writes (some code) texts args) :
    readRun args = texts.mapM readInput >>= fun inputs => return .run code inputs := by
  have hread : readRun args = readFrom args (hold none) ⟨none, []⟩ >>= fun given =>
      match given.code with
      | some code => return .run code given.inputs
      | none => throw .missingArgument := by
    rw [readFrom, bind_assoc]
    rfl
  rw [hread, readFrom_of_writes h none fun _ => rfl]
  simp

end Dataflow.CommandLine
