/-!
# Argument grammars

How the arguments of a command are read: options with a long and perhaps a short
name, words in between, and the name of a subcommand, which ends them.

An argument that starts with a dash is never the value of the option before it, and
the value of an option is looked at only when the next option or word comes up that
the command knows, or at the end; so an unknown argument is reported before a bad
value. After a lone `--` every argument is a word.

* `Grammar.scan` reads the arguments up to the first subcommand.
* `Pending.settle` makes up for the option whose value was not looked at yet.
-/

namespace Dataflow.CommandLine

/-- Why there is nothing to run. -/
inductive UsageError where
  /-- The help was asked for. -/
  | helpRequested
  /-- The version was asked for. -/
  | versionRequested
  /-- There are no arguments. -/
  | nothingGiven
  /-- An argument is unknown. -/
  | unknownArgument
  /-- A subcommand is unknown. -/
  | unknownSubcommand
  /-- There is no subcommand. -/
  | missingSubcommand
  /-- An argument that the command needs is missing. -/
  | missingArgument
  /-- An option is given more than once. -/
  | repeatedOption
  /-- An option that takes no value has one. -/
  | unneededValue
  /-- An option has no value, or one that is not among its possible values. -/
  | invalidValue
  /-- The value of an option is malformed. -/
  | malformedValue (reason : String)
deriving DecidableEq

/-- The text of the reason. -/
def UsageError.message : UsageError → String
  | helpRequested => "the help was asked for"
  | versionRequested => "the version was asked for"
  | nothingGiven => "there are no arguments"
  | unknownArgument => "an argument is unknown"
  | unknownSubcommand => "a subcommand is unknown"
  | missingSubcommand => "a subcommand is missing"
  | missingArgument => "an argument is missing"
  | repeatedOption => "an option is given more than once"
  | unneededValue => "an option has a value that it does not take"
  | invalidValue => "the value of an option is missing or invalid"
  | malformedValue reason => reason

/-- An argument by its shape. -/
inductive Token where
  /-- The argument `--`. -/
  | separator
  /-- The long name of an option, and what follows it after an equals sign. -/
  | long (name : String) (value : Option String)
  /-- The short names of options after a single dash. -/
  | short (names : List Char)
  /-- Any other argument. -/
  | word (s : String)

/-- The text before the first equals sign and the text after it, if there is one. -/
def splitAtEquals (cs : List Char) : List Char × Option (List Char) :=
  match cs.dropWhile (· ≠ '=') with
  | [] => (cs, none)
  | _ :: rest => (cs.takeWhile (· ≠ '='), some rest)

/-- The shape of an argument. -/
def Token.ofArgument (s : String) : Token :=
  match s.toList with
  | ['-', '-'] => separator
  | '-' :: '-' :: rest =>
    let (name, value) := splitAtEquals rest
    long (String.ofList name) (value.map String.ofList)
  | '-' :: c :: rest => short (c :: rest)
  | _ => word s

/-- How an option sets what has been read, of type `σ`. -/
inductive Effect (σ : Type) where
  /-- It ends the reading. -/
  | stop (e : UsageError)
  /-- It takes no value. -/
  | switch (set : σ → Except UsageError σ)
  /-- It takes a value. -/
  | value (set : String → σ → Except UsageError σ)

/-- An option of a command. -/
structure Flag (σ : Type) where
  /-- The long name. -/
  long : String
  /-- The short name, if there is one. -/
  short : Option Char
  /-- What it does. -/
  effect : Effect σ

/-- An option whose value was not looked at yet. -/
inductive Pending (σ : Type) where
  /-- There is none. -/
  | nothing
  /-- The value is still to come. -/
  | awaited (set : String → σ → Except UsageError σ)
  /-- The value is there. -/
  | held (set : String → σ → Except UsageError σ) (value : String)

/-- How the arguments of a command are read. -/
structure Grammar (σ : Type) where
  /-- The options. -/
  flags : List (Flag σ)
  /-- The names of the subcommands. -/
  subcommands : List String
  /-- What has been read with one more word, unless the command takes no more. -/
  word : String → σ → Option σ

/-- What the arguments of a command come to. -/
structure Scanned (σ : Type) where
  /-- What has been read. -/
  state : σ
  /-- The last option, if its value was not looked at yet. -/
  pending : Pending σ
  /-- The subcommand and the arguments after it. -/
  subcommand : Option (String × List String)

variable {σ α : Type}

/-- Sets an option that is given at most once. -/
def setOnce (get : σ → Option α) (set : σ → α → σ) (read : String → Except UsageError α)
    (value : String) (state : σ) : Except UsageError σ :=
  if (get state).isSome then .error .repeatedOption
  else do return set state (← read value)

namespace Pending

/-- Whether the next word is a value. -/
def isAwaited : Pending σ → Bool
  | awaited _ => true
  | _ => false

/-- Looks at the value. -/
def settle (state : σ) : Pending σ → Except UsageError σ
  | nothing => .ok state
  | awaited _ => .error .invalidValue
  | held set value => set value state

end Pending

/-- Reads an option, with a value attached to it or without. -/
def Flag.take (flag : Flag σ) (attached : Option String) (pending : Pending σ) (state : σ) :
    Except UsageError (Pending σ × σ) :=
  match flag.effect, attached with
  | .value set, some value => do return (.nothing, ← set value (← pending.settle state))
  | .value set, none => do return (.awaited set, ← pending.settle state)
  | _, some _ => .error .unneededValue
  | .switch set, none => do return (.nothing, ← set (← pending.settle state))
  | .stop e, none => do
    let _ ← pending.settle state
    throw e

/-- The value that follows a short name at once, perhaps after an equals sign. -/
def attachedValue : List Char → Option String
  | [] => none
  | '=' :: rest => some (String.ofList rest)
  | rest => some (String.ofList rest)

namespace Grammar

variable (g : Grammar σ)

/-- Reads short names that stand together. -/
def takeShort : List Char → Pending σ → σ → Except UsageError (Pending σ × σ)
  | [], pending, state => .ok (pending, state)
  | c :: rest, pending, state =>
    match g.flags.find? (·.short = some c) with
    | none => .error .unknownArgument
    | some flag =>
      match flag.effect with
      | .value _ => flag.take (attachedValue rest) pending state
      | _ => do
        let (pending, state) ← flag.take none pending state
        takeShort rest pending state

/-- Reads a word; `trailing` says whether it comes after a separator. -/
def takeWord (trailing : Bool) (s : String) (pending : Pending σ) (state : σ) :
    Except UsageError (Pending σ × σ) :=
  match g.word s state with
  | some state => do return (.nothing, ← pending.settle state)
  | none =>
    if g.subcommands.isEmpty ∨ (trailing ∧ s ∈ g.subcommands) then .error .unknownArgument
    else .error .unknownSubcommand

/-- Reads an argument that is neither a subcommand nor a separator. -/
def take (s : String) (pending : Pending σ) (state : σ) :
    Except UsageError (Pending σ × σ) :=
  match Token.ofArgument s, pending with
  | .long name value, _ =>
    match g.flags.find? (·.long = name) with
    | none => .error .unknownArgument
    | some flag => flag.take value pending state
  | .short names, _ => g.takeShort names pending state
  | _, .awaited set => .ok (.held set s, state)
  | _, _ => g.takeWord false s pending state

/-- Reads the arguments after a separator. -/
def scanWords : List String → Pending σ → σ → Except UsageError (Scanned σ)
  | [], pending, state => .ok ⟨state, pending, none⟩
  | s :: rest, pending, state => do
    let (pending, state) ← g.takeWord true s pending state
    scanWords rest pending state

/-- Reads the arguments up to the first subcommand. -/
def scan : List String → Pending σ → σ → Except UsageError (Scanned σ)
  | [], pending, state => .ok ⟨state, pending, none⟩
  | s :: rest, pending, state =>
    if !pending.isAwaited && s ∈ g.subcommands then .ok ⟨state, pending, some (s, rest)⟩
    else
      match Token.ofArgument s with
      | .separator => g.scanWords rest pending state
      | _ => do
        let (pending, state) ← g.take s pending state
        scan rest pending state

end Grammar

end Dataflow.CommandLine
