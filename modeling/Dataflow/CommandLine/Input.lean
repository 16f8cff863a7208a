import Dataflow.CommandLine.Grammar
import Dataflow.Json.Reader
import Dataflow.Text.Blank

/-!
# Inputs on the command line

An input is written as its name, an equals sign and its value. The name has no blanks
at its ends and is not empty; the value is JSON or else, as it stands, a string.
-/

namespace Dataflow.CommandLine

/-- The name and the value of an input. -/
def readInput (s : String) : Except UsageError (String × Json) :=
  match splitAtEquals s.toList with
  | (_, none) => .error (.malformedValue s!"expected `name=value`, got `{s}`")
  | (name, some value) =>
    let name := Text.trimChars name
    if name.isEmpty then .error (.malformedValue s!"missing input name in `{s}`")
    else
      let value := String.ofList value
      .ok (String.ofList name, (Json.read? value).getD (.string value))

end Dataflow.CommandLine
