import QueryEngine.Text.Quoted

/-!
# Type references

The type of a field, an argument or a variable: a named type or a list, each of them nullable or
not. `item?` takes one list layer off, `inner` takes all of them off.
-/

namespace QueryEngine

/-- A reference to a type. -/
inductive TypeRef where
  | named (name : String)
  | nonNullNamed (name : String)
  | list (item : TypeRef)
  | nonNullList (item : TypeRef)
deriving DecidableEq, Inhabited, Repr

namespace TypeRef

/-- The named type below all list layers. -/
def inner : TypeRef → String
  | .named name | .nonNullNamed name => name
  | .list item | .nonNullList item => item.inner

/-- The type of the items of a list type. -/
def item? : TypeRef → Option TypeRef
  | .list item | .nonNullList item => some item
  | .named _ | .nonNullNamed _ => none

/-- Whether null is no value of the type. -/
def isNonNull : TypeRef → Bool
  | .nonNullNamed _ | .nonNullList _ => true
  | .named _ | .list _ => false

/-- The same type without null. -/
def nonNull : TypeRef → TypeRef
  | .named name | .nonNullNamed name => .nonNullNamed name
  | .list item | .nonNullList item => .nonNullList item

/-- The type as it is written in a schema. -/
def text : TypeRef → String
  | .named name => name
  | .nonNullNamed name => name ++ "!"
  | .list item => "[" ++ item.text ++ "]"
  | .nonNullList item => "[" ++ item.text ++ "]!"

/-- The text that shows the layers of the type. -/
def inspect : TypeRef → String
  | .named name => Text.applied "Named" (Text.quoted name)
  | .nonNullNamed name => Text.applied "NonNullNamed" (Text.quoted name)
  | .list item => Text.applied "List" item.inspect
  | .nonNullList item => Text.applied "NonNullList" item.inspect

end TypeRef

end QueryEngine
