import QueryEngine.Json
import QueryEngine.Text.Double

/-!
# Literals

The values that a document writes: JSON-like literals with enum names and variables. `toJson?`
puts in the values of the variables. A variable without a value has none: it is null as an item of
a list, and an object leaves the field out.
-/

namespace QueryEngine

/-- A value as a document writes it. -/
inductive Literal where
  | null
  | bool (value : Bool)
  | int (value : Int)
  | float (value : Double.Literal)
  | string (text : String)
  | enum (name : String)
  | variable (name : String)
  | list (items : List Literal)
  | object (fields : List (String × Literal))
deriving Inhabited

namespace Literal

mutual

/-- Whether a literal holds no variable. -/
def isConstant : Literal → Bool
  | .variable _ => false
  | .list items => itemsAreConstant items
  | .object fields => fieldsAreConstant fields
  | .null | .bool _ | .int _ | .float _ | .string _ | .enum _ => true

/-- Whether no list item holds a variable. -/
def itemsAreConstant : List Literal → Bool
  | [] => true
  | item :: rest => item.isConstant && itemsAreConstant rest

/-- Whether no object field holds a variable. -/
def fieldsAreConstant : List (String × Literal) → Bool
  | [] => true
  | (_, literal) :: rest => literal.isConstant && fieldsAreConstant rest
end

/-- A decimal as JSON, unless it is beyond the range of doubles. -/
def double? (value : Double.Literal) : Option Json :=
  let bits := value.toBits
  if Double.isFinite bits then some (.number (.float bits)) else none

/-- A whole number as JSON: a double where it does not fit 64 bits with sign. -/
def int? (value : Int) : Option Json :=
  if Width.Signed 64 value then some (.number (.int value))
  else double? ⟨value < 0, value.natAbs, 0⟩

mutual

/-- The value of a literal; none for a variable without a value. -/
def toJson? (vars : Fields) : Literal → Option Json
  | .null => some .null
  | .bool value => some (.bool value)
  | .int value => int? value
  | .float value => double? value
  | .string text => some (.string text)
  | .enum name => some (.string name)
  | .variable name => vars.lookup name
  | .list items => some (.array (itemsToJson vars items))
  | .object fields => some (.object (Entries.ofList (fieldsToJson vars fields)))

/-- The values of list items, null for one that has none. -/
def itemsToJson (vars : Fields) : List Literal → List Json
  | [] => []
  | item :: rest => (item.toJson? vars).getD .null :: itemsToJson vars rest

/-- The values of object fields, without those that have none. -/
def fieldsToJson (vars : Fields) : List (String × Literal) → Fields
  | [] => []
  | (name, literal) :: rest =>
    match literal.toJson? vars with
    | some value => (name, value) :: fieldsToJson vars rest
    | none => fieldsToJson vars rest
end

end Literal

end QueryEngine
