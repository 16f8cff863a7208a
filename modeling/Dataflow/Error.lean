import Dataflow.Port

/-!
# Errors

What can go wrong when actions are declared, built or evaluated. An error is its
cause, with what a reader needs to find the fault; its text (`Error.message`) and its
kind (`Error.kind`) are derived. No error is recovered from inside the library.
-/

namespace Dataflow

/-- The kinds of errors. -/
inductive ErrorKind where
  /-- A code or an engine is registered already. -/
  | alreadyExists
  /-- Something was looked up that was never registered or produced. -/
  | notExists
  /-- The values do not match the ports. -/
  | invalidParams
  /-- A value was rejected by the type of its port. -/
  | invalidType
  /-- A declaration or a graph is malformed. -/
  | invalidDeclaration
  /-- A validator failed. -/
  | unexpected
  /-- A host function failed. -/
  | executionFailed
deriving DecidableEq

/-- The name of a kind. -/
def ErrorKind.name : ErrorKind → String
  | alreadyExists => "already_exists"
  | notExists => "not_exists"
  | invalidParams => "invalid_params"
  | invalidType => "invalid_type"
  | invalidDeclaration => "invalid_declaration"
  | unexpected => "unexpected"
  | executionFailed => "execution_failed"

/-- What a registry holds. -/
inductive Entity where
  /-- Actions. -/
  | action
  /-- Actions that are defined by a graph. -/
  | algorithm
  /-- Strategies. -/
  | implementation
deriving DecidableEq

/-- The word for an entity. -/
def Entity.text : Entity → String
  | action => "action"
  | algorithm => "algorithm"
  | implementation => "implementation"

/-- An error. -/
inductive Error where
  /-- A code is registered already. -/
  | alreadyExists (entity : Entity) (code : String)
  /-- A code is not registered. -/
  | notExists (entity : Entity) (code : String)
  /-- A strategy is registered already for this action and engine. -/
  | engineAlreadyExists (action : String) (engine : EngineKey)
  /-- No strategy is registered for this action and engine. -/
  | engineNotExists (action : String) (engine : EngineKey)
  /-- Two ports of one direction share a name. -/
  | duplicatePort (action : String) (direction : Direction) (name : String)
  /-- The supplied names are not those of the ports. -/
  | mismatchedKeys (action : String) (direction : Direction) (unexpected missing : List String)
  /-- There is no port under an address; `owner` describes what was asked. -/
  | unknownPort (owner : String) (direction : Direction) (key : PortKey)
  /-- A builder produced another number of results than there are outlets. -/
  | outletCountMismatch (algorithm : String) (declared received : Nat)
  /-- An action has no strategy at all. -/
  | noImplementation (action : String)
  /-- An action has no strategy for the engine that the context asks for. -/
  | unknownEngine (action : String) (engine : EngineKey)
  /-- A value was rejected by the type of its port; `value` is its text. -/
  | invalidType (action : String) (direction : Direction) (parameter value expected reason : String)
  /-- The validator of a type failed. -/
  | unexpected (type : String) (failure : Failure)
  /-- An inlet of a step has no source. -/
  | unboundInlet (algorithm : String) (step : Nat) (action inlet : String)
  /-- A step without a single outlet is used as a value. -/
  | ambiguousStep (step : Nat) (action : String) (outlets : Nat)
  /-- A host function returned another number of results than there are outlets. -/
  | resultCountMismatch (action : String) (declared received : Nat)
  /-- A host function does not accept the arguments that it is called with. -/
  | signatureMismatch (action : String) (engine : EngineKey) (expected received : List String)
  /-- A strategy stands for another action and cannot be called itself. -/
  | notCallable (action : String) (engine : EngineKey) (target : String)
  /-- A port is bound in a role that it cannot play. -/
  | invalidBinding (algorithm reason : String)
  /-- A value is needed that was never produced; `port` describes where it comes
      from. -/
  | missingValue (algorithm port : String)
  /-- A host function failed. -/
  | executionFailed (action : String) (engine : EngineKey) (failure : Failure)

namespace Error

/-- The text of an error. -/
def message : Error → String
  | alreadyExists entity code => s!"{entity.text} with code `{code}` already exists"
  | notExists entity code => s!"{entity.text} with code `{code}` does not exist"
  | engineAlreadyExists action engine =>
    s!"action `{action}` with engine `{engine.name}` already exists"
  | engineNotExists action engine =>
    s!"action `{action}` with engine `{engine.name}` does not exist"
  | duplicatePort action direction name =>
    s!"action `{action}` declares {direction.text}let `{name}` more than once"
  | mismatchedKeys action direction extra absent =>
    s!"action `{action}`: {direction.text}-params do not match (unexpected: [" ++
      ",".intercalate extra ++ "], missing: [" ++ ",".intercalate absent ++ "])"
  | unknownPort owner direction key =>
    s!"{owner} does not have {direction.text}let with {key.text}"
  | outletCountMismatch algorithm declared received =>
    s!"algorithm `{algorithm}` declares {declared} outlets but the builder produced {received}"
  | noImplementation action => s!"strategies for action `{action}` do not exist"
  | unknownEngine action engine =>
    s!"action `{action}` has no strategy for engine `{engine.name}`"
  | invalidType action direction parameter value expected reason =>
    s!"action `{action}`: incorrect type of {direction.text}-parameter `{parameter}` " ++
      s!"(value: {value}); expected type `{expected}`: {reason}"
  | unexpected type _ => s!"validator of type `{type}` failed unexpectedly"
  | unboundInlet algorithm step action inlet =>
    s!"in algorithm `{algorithm}` for step {step} (`{action}`) not bound inlet `{inlet}`"
  | ambiguousStep step action outlets =>
    s!"step {step} (`{action}`) has {outlets} outlets and cannot stand in for a single value"
  | resultCountMismatch action declared received =>
    s!"action `{action}` declares {declared} outlets but its strategy returned {received} results"
  | signatureMismatch action engine expected received =>
    s!"seems like callable for action `{action}` (engine `{engine.name}`) has invalid " ++
      "declaration: accepts (" ++ ", ".intercalate expected ++ "), called with (" ++
      ", ".intercalate received ++ ")"
  | notCallable action engine target =>
    s!"strategy for action `{action}` (engine `{engine.name}`) delegates to `{target}` " ++
      "and needs an interpreter"
  | invalidBinding algorithm reason => s!"invalid binding in algorithm `{algorithm}`: {reason}"
  | missingValue algorithm port => s!"algorithm `{algorithm}`: no value was produced for {port}"
  | executionFailed action engine _ =>
    s!"strategy for action `{action}` (engine `{engine.name}`) failed"

/-- The kind of an error. -/
def kind : Error → ErrorKind
  | alreadyExists .. | engineAlreadyExists .. => .alreadyExists
  | notExists .. | engineNotExists .. | missingValue .. => .notExists
  | mismatchedKeys .. | unknownPort .. | outletCountMismatch .. | noImplementation ..
  | unknownEngine .. => .invalidParams
  | invalidType .. => .invalidType
  | duplicatePort .. | unboundInlet .. | ambiguousStep .. | resultCountMismatch ..
  | signatureMismatch .. | notCallable .. | invalidBinding .. => .invalidDeclaration
  | unexpected .. => .unexpected
  | executionFailed .. => .executionFailed

/-- The failure of host code behind an error, if there is one. -/
def failure? : Error → Option Failure
  | unexpected _ failure | executionFailed _ _ failure => some failure
  | _ => none

end Error

end Dataflow
