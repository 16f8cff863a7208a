import Dataflow.Json.Printer
import Dataflow.Text.Quoted

/-!
# JSON data in messages

The text of a value that names the kind of each of its parts, as a message for a
developer shows it.
-/

namespace Dataflow.Json

mutual

/-- The text of a value with the kind of each part. -/
def tagged : Json → String
  | null => "Null"
  | bool b => if b then "Bool(true)" else "Bool(false)"
  | number n => "Number(" ++ String.ofList n.text ++ ")"
  | string s => "String(" ++ Text.quoted s ++ ")"
  | array items => "Array [" ++ ", ".intercalate (taggedItems items) ++ "]"
  | object members => "Object \x7b" ++ ", ".intercalate (taggedMembers members) ++ "\x7d"

/-- The texts of the items. -/
def taggedItems : List Json → List String
  | [] => []
  | x :: xs => tagged x :: taggedItems xs

/-- The texts of the members, each behind its quoted name. -/
def taggedMembers : List (String × Json) → List String
  | [] => []
  | (name, x) :: ms => (Text.quoted name ++ ": " ++ tagged x) :: taggedMembers ms

end

end Dataflow.Json
