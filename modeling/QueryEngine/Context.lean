import QueryEngine.Memo

/-!
# Execution contexts

What the resolvers of one execution share: the variables of the request, a cancellation signal,
entries by key, extensions by type and a memo. Entries are kept as JSON; whoever reads or inserts
one chooses the type, and each type says how its values are written and read (`EntryType`). Reading
an entry that is no value of the type fails and changes nothing; inserting over one fails too, with
the new value in place.
-/

namespace QueryEngine

/-- The kinds of value that an entry can be read as. -/
inductive EntryKind where
  | unsigned32
  | signed64
  | bool
  | string
  | strings
  | any
deriving DecidableEq, Repr

/-- Whether a value is of the kind. -/
def EntryKind.accepts (kind : EntryKind) (value : Json) : Bool :=
  match kind with
  | .unsigned32 => value.asUnsigned?.any (· < Width.values 32)
  | .signed64 => value.asSigned?.isSome
  | .bool => value.asBool?.isSome
  | .string => value.asString?.isSome
  | .strings =>
    match value with
    | .array items => items.all (·.asString?.isSome)
    | _ => false
  | .any => true

/-- The error for an entry of another type than the one asked for. -/
def FieldError.wrongType : FieldError := .new "invalid type"

/-- How the values of a type are kept as entries. -/
structure EntryType (α : Type) where
  /-- The entry for a value; some values have none. -/
  write : α → Except FieldError Json
  /-- The value of an entry, if it is one of the type. -/
  read : Json → Except FieldError α

/-- The value of the entry that a key may have. -/
def EntryType.readEntry {α : Type} (type : EntryType α) :
    Option Json → Except FieldError (Option α)
  | none => .ok none
  | some entry => (type.read entry).map some

/-- A kind of value as a type. -/
def EntryKind.type (kind : EntryKind) : EntryType Json where
  write value := if kind.accepts value then .ok value else .error .wrongType
  read entry := if kind.accepts entry then .ok entry else .error .wrongType

/-- What the resolvers of one execution share. -/
structure Context where
  id : Nat
  /-- The values of the variables of the request. -/
  vars : Fields := []
  cancelled : Bool := false
  entries : Fields := []
  extensions : Fields := []
  counters : List (String × Nat) := []
  memo : Memo Json := {}
deriving Inhabited

namespace Context

/-- The entry of a key as a value of a type. -/
def getAs {α : Type} (context : Context) (type : EntryType α) (key : String) :
    Except FieldError (Option α) :=
  type.readEntry (context.entries.lookup key)

/-- Puts a value of a type in place as the entry of a key, and answers the one that was there
before. A value without an entry changes nothing. -/
def insertAs {α : Type} (context : Context) (type : EntryType α) (key : String) (value : α) :
    Except FieldError (Option α) × Context :=
  match type.write value with
  | .error error => (.error error, context)
  | .ok entry =>
    (type.readEntry (context.entries.lookup key),
      { context with entries := Entries.put key entry context.entries })

/-- The entry of a key. -/
def get (context : Context) (key : String) (kind : EntryKind) :
    Except FieldError (Option Json) :=
  context.getAs kind.type key

/-- Puts an entry in place and answers the one that was there before. -/
def insert (context : Context) (key : String) (kind : EntryKind) (value : Json) :
    Except FieldError (Option Json) × Context :=
  context.insertAs kind.type key value

/-- Asks the execution to stop at the next drain step. -/
def cancel (context : Context) : Context :=
  { context with cancelled := true }

/-- The context for another execution, once the tasks of the last one are gone. -/
def reuse (context : Context) : Context :=
  { context with memo := context.memo.release }

/-- Counts one more under a key, and answers the count. -/
def count (context : Context) (key : String) : Nat × Context :=
  let n := (context.counters.lookup key).getD 0 + 1
  (n, { context with counters := Entries.put key n context.counters })

/-- The extension of a type. -/
def extension? (context : Context) (type : String) : Option Json :=
  context.extensions.lookup type

/-- Puts the extension of a type in place. -/
def insertExtension (context : Context) (type : String) (value : Json) : Context :=
  { context with extensions := Entries.put type value context.extensions }

/-- The extension of a type; the given one is put in place if there is none. -/
def extensionOr (context : Context) (type : String) (value : Json) : Json × Context :=
  match context.extension? type with
  | some held => (held, context)
  | none => (value, context.insertExtension type value)

end Context

end QueryEngine
