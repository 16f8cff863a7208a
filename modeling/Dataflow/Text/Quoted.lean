import Dataflow.Text.Printable

/-!
# Quoted text

A text between double quotes as it is shown in a message: the quote and the
backslash are escaped, the common controls have an escape of one letter, and any
other character that is not printable is shown by its code point.
-/

namespace Dataflow.Text

/-- How a character is shown inside quotes. -/
def quoteChar (c : Char) : List Char :=
  match c with
  | '"' => ['\\', '"']
  | '\\' => ['\\', '\\']
  | '\n' => ['\\', 'n']
  | '\r' => ['\\', 'r']
  | '\t' => ['\\', 't']
  | '\x00' => ['\\', '0']
  | c =>
    if isPrintable c then [c]
    else ['\\', 'u', '\x7b'] ++ Nat.toDigits 16 c.toNat ++ ['\x7d']

/-- The text in double quotes. -/
def quoted (s : String) : String :=
  String.ofList ('"' :: s.toList.flatMap quoteChar ++ ['"'])

end Dataflow.Text
