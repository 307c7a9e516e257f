import QueryEngine.Error

/-!
# Field values

What a resolver may answer for a field. The objects, the collections and the tasks of a host are
opaque handles of types `O`, `C` and `T`, so a host may have cyclic objects, objects made on demand
and tasks that yield further tasks without end.
-/

namespace QueryEngine

/-- One member of a collection. -/
inductive Element (O : Type) where
  | value (json : Json)
  | object (handle : O)
deriving Inhabited

/-- A member of a collection with its position in the collection. -/
structure Item (O : Type) where
  position : Nat
  element : Element O
deriving Inhabited

/-- An object that fields are resolved on: one of the host, or one that the engine made. -/
inductive Object (O : Type) where
  | host (handle : O)
  /-- The entries of a JSON object. Every key is both a lookup key and a getter, and a getter
  without an entry yields null. -/
  | json (type : String) (fields : Fields)
  /-- A member of a page of a connection. -/
  | edge (type : String) (item : Item O)
deriving Inhabited

/-- A value that the schema's resolver for its type turns into the field's value later. -/
structure Marker where
  type : String
  payload : Json
deriving Inhabited

/-- What a resolver answers. -/
inductive FieldValue (O C T : Type) where
  | value (json : Json)
  | object (object : Object O)
  | list (items : List (FieldValue O C T))
  /-- The members of a connection, or of a plain list. -/
  | collection (collection : C)
  /-- A value that is not there yet. -/
  | lazy (task : T)
  | deferred (marker : Marker)
deriving Inhabited

/-- A value or the error met instead of it. -/
abbrev Outcome (O C T : Type) := Except FieldError (FieldValue O C T)

variable {O C T : Type}

/-- A member of a collection as the value of a field. -/
def Element.toFieldValue : Element O → FieldValue O C T
  | .value json => .value json
  | .object handle => .object (.host handle)

/-- The null value. -/
def FieldValue.null : FieldValue O C T := .value .null

/-- A text as the value of a field. -/
def FieldValue.text (text : String) : FieldValue O C T := .value (.string text)

end QueryEngine
