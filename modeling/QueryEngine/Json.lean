import QueryEngine.Entries
import QueryEngine.Width

/-!
# JSON values

A JSON value whose objects keep the order of their keys. A number is a whole number or an IEEE
double, held as its bits, and a whole number never equals a double. `same` compares values up to
the order of object keys, `sameOrdered` asks for the same order as well.
-/

namespace QueryEngine

/-- A number as it is written: a whole number within 64 bits, or the bits of a double. -/
inductive Number where
  | int (value : Int)
  | float (bits : UInt64)
deriving DecidableEq, Inhabited, Repr

/-- A JSON value. The keys of an object are distinct and in order of insertion. -/
inductive Json where
  | null
  | bool (value : Bool)
  | number (value : Number)
  | string (value : String)
  | array (items : List Json)
  | object (fields : List (String × Json))
deriving Inhabited, Repr

/-- The entries of a JSON object. -/
abbrev Fields := List (String × Json)

namespace Number

/-- The number as a whole number of 64 bits without sign, if it is one. -/
def asUnsigned? : Number → Option Nat
  | .int value => if Width.Unsigned 64 value then some value.toNat else none
  | .float _ => none

/-- The number as a whole number of 64 bits with sign, if it is one. -/
def asSigned? : Number → Option Int
  | .int value => if Width.Signed 64 value then some value else none
  | .float _ => none

/-- The double nearest to the number. -/
def toFloat : Number → Float
  | .int value => Float.ofInt value
  | .float bits => Float.ofBits bits

/-- Equality of numbers: whole numbers by value, doubles by value, so the two zeros are equal. -/
def same : Number → Number → Bool
  | .int a, .int b => a == b
  | .float a, .float b => a == b || (a <<< 1 == 0 && b <<< 1 == 0)
  | _, _ => false

end Number

namespace Json

/-- A number that counts something. -/
def ofNat (n : Nat) : Json := .number (.int n)

/-- The text of a string value. -/
def asString? : Json → Option String
  | .string text => some text
  | _ => none

/-- The truth value of a boolean. -/
def asBool? : Json → Option Bool
  | .bool b => some b
  | _ => none

/-- The value as a whole number of 64 bits without sign. -/
def asUnsigned? : Json → Option Nat
  | .number n => n.asUnsigned?
  | _ => none

/-- The value as a whole number of 64 bits with sign. -/
def asSigned? : Json → Option Int
  | .number n => n.asSigned?
  | _ => none

/-- The entries of an object, none for any other value. -/
def fields : Json → Fields
  | .object fields => fields
  | _ => []

/-- The items of an array, none for any other value. -/
def items : Json → List Json
  | .array items => items
  | _ => []

/-- The value that an object binds to `key`. -/
def get? (value : Json) (key : String) : Option Json :=
  value.fields.lookup key

/-- Whether the value is null. -/
def isNull : Json → Bool
  | .null => true
  | _ => false

mutual

/-- The number of levels of a value. -/
def height : Json → Nat
  | .array items => heightOfItems items + 1
  | .object fields => heightOfFields fields + 1
  | _ => 1

/-- The greatest height of an item. -/
def heightOfItems : List Json → Nat
  | [] => 0
  | item :: rest => max item.height (heightOfItems rest)

/-- The greatest height of an entry. -/
def heightOfFields : List (String × Json) → Nat
  | [] => 0
  | (_, value) :: rest => max value.height (heightOfFields rest)
end

mutual

/-- Equality of values in which the order of object keys does not count. -/
def same : Json → Json → Bool
  | .null, .null => true
  | .bool a, .bool b => a == b
  | .number a, .number b => a.same b
  | .string a, .string b => a == b
  | .array a, .array b => sameItems a b
  | .object a, .object b => a.length == b.length && sameFields a b
  | _, _ => false

/-- `same` item by item. -/
def sameItems : List Json → List Json → Bool
  | [], [] => true
  | a :: as, b :: bs => a.same b && sameItems as bs
  | _, _ => false

/-- Whether every entry of the first list has an equal one in the second. -/
def sameFields : List (String × Json) → List (String × Json) → Bool
  | [], _ => true
  | (key, a) :: rest, others =>
    match others.lookup key with
    | some b => a.same b && sameFields rest others
    | none => false
end

mutual

/-- Equality of values in which objects have the same keys in the same order. -/
def sameOrdered : Json → Json → Bool
  | .array a, .array b => sameOrderedItems a b
  | .object a, .object b => sameOrderedFields a b
  | a, b => a.same b

/-- `sameOrdered` item by item. -/
def sameOrderedItems : List Json → List Json → Bool
  | [], [] => true
  | a :: as, b :: bs => a.sameOrdered b && sameOrderedItems as bs
  | _, _ => false

/-- `sameOrdered` entry by entry, with equal keys. -/
def sameOrderedFields : List (String × Json) → List (String × Json) → Bool
  | [], [] => true
  | (k, a) :: as, (l, b) :: bs => k == l && a.sameOrdered b && sameOrderedFields as bs
  | _, _ => false
end

end Json

end QueryEngine
