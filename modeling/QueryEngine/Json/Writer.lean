import QueryEngine.Json
import QueryEngine.Text.Double

/-!
# Writing JSON text

Compact JSON. A double is written as an object whose only key is `$f64` and whose value is the
sixteen hexadecimal digits of its bits, so that no digit is lost or added.
-/

namespace QueryEngine.Json

namespace Writer

/-- A character inside a string. -/
def escape (c : Char) : String :=
  if c == '"' then "\\\""
  else if c == '\\' then "\\\\"
  else if c.toNat < 32 then
    "\\u00" ++ String.ofList
      [Nat.digitChar (c.toNat / 16), Nat.digitChar (c.toNat % 16)]
  else c.toString

/-- A string between quotes. -/
def quote (text : String) : String :=
  "\"" ++ text.foldl (fun acc c => acc ++ escape c) "" ++ "\""

end Writer

mutual

/-- The compact text of a value. -/
def toText : Json → String
  | .null => "null"
  | .bool true => "true"
  | .bool false => "false"
  | .number (.int value) => toString value
  | .number (.float bits) => "\x7b\"$f64\":\"" ++ Double.hex bits ++ "\"\x7d"
  | .string text => Writer.quote text
  | .array items => "[" ++ itemsText items ++ "]"
  | .object fields => "\x7b" ++ fieldsText fields ++ "\x7d"

/-- The items of an array, separated by commas. -/
def itemsText : List Json → String
  | [] => ""
  | [item] => item.toText
  | item :: rest => item.toText ++ "," ++ itemsText rest

/-- The entries of an object, separated by commas. -/
def fieldsText : List (String × Json) → String
  | [] => ""
  | [(key, value)] => Writer.quote key ++ ":" ++ value.toText
  | (key, value) :: rest => Writer.quote key ++ ":" ++ value.toText ++ "," ++ fieldsText rest
end

end QueryEngine.Json
