import QueryEngine.Text.Unprintable

/-!
# Inspection texts

The text that shows a value to a reader: strings between quotes with escapes, sequences between
brackets, named parts between braces. Every printer named `inspect` is built from these.
-/

namespace QueryEngine.Text

/-- A number in hexadecimal, without leading zeros. -/
def hexadecimal (n : Nat) : String :=
  String.ofList (Nat.toDigits 16 n)

/-- A character inside a quoted text. -/
def escape (c : Char) : String :=
  if c == '\x00' then "\\0"
  else if c == '\t' then "\\t"
  else if c == '\r' then "\\r"
  else if c == '\n' then "\\n"
  else if c == '"' then "\\\""
  else if c == '\\' then "\\\\"
  else if c.toNat < 32 || c.toNat == 127 || (128 ≤ c.toNat && isUnprintable c) then
    "\\u\x7b" ++ hexadecimal c.toNat ++ "\x7d"
  else c.toString

/-- A text between quotes. -/
def quoted (text : String) : String :=
  "\"" ++ String.join (text.toList.map escape) ++ "\""

/-- Texts separated by a comma and a blank. -/
def commaSeparated (texts : List String) : String :=
  ", ".intercalate texts

/-- A sequence of texts between brackets. -/
def bracketed (texts : List String) : String :=
  "[" ++ commaSeparated texts ++ "]"

/-- A sequence of entries between braces. -/
def braced (entries : List (String × String)) : String :=
  "\x7b" ++ commaSeparated (entries.map fun entry => entry.1 ++ ": " ++ entry.2) ++ "\x7d"

/-- A name with its parts in parentheses. -/
def applied (name : String) (part : String) : String :=
  name ++ "(" ++ part ++ ")"

/-- A name with named parts between braces. -/
def record (name : String) (parts : List (String × String)) : String :=
  name ++ " \x7b " ++ commaSeparated (parts.map fun part => part.1 ++ ": " ++ part.2) ++ " \x7d"

/-- A value that may be absent. -/
def optional (text : Option String) : String :=
  match text with
  | some text => applied "Some" text
  | none => "None"

end QueryEngine.Text
