import QueryEngine.Json
import QueryEngine.Text.Double
import QueryEngine.Text.Quoted

/-!
# Inspecting JSON values

The text that shows a JSON value with the kind of each of its parts.
-/

namespace QueryEngine

/-- Doubles in JSON numbers have no exponent while their point lies within the first sixteen
digits or at most four zeros before them. An exponent always has a sign, and of two decimals as
near the even one is taken. -/
def Number.layout : Double.Layout := ⟨-4, 16, .toEven, true⟩

/-- The text of a number. -/
def Number.text : Number → String
  | .int value => toString value
  | .float bits => Number.layout.text bits

namespace Json

mutual

/-- The text that shows a value. -/
def inspect : Json → String
  | .null => "Null"
  | .bool b => Text.applied "Bool" (if b then "true" else "false")
  | .number n => Text.applied "Number" n.text
  | .string text => Text.applied "String" (Text.quoted text)
  | .array items => Text.applied "Array" (Text.bracketed (inspectItems items))
  | .object fields => Text.applied "Object" (Text.braced (inspectFields fields))

/-- `inspect` of each item. -/
def inspectItems : List Json → List String
  | [] => []
  | item :: rest => item.inspect :: inspectItems rest

/-- `inspect` of each entry. -/
def inspectFields : List (String × Json) → List (String × String)
  | [] => []
  | (key, value) :: rest => (Text.quoted key, value.inspect) :: inspectFields rest
end

end Json

end QueryEngine
