import QueryEngine.Field.Action
import QueryEngine.Field.Host

/-!
# Connections

The value of a connection field: a collection, the operations that the field declares and the
arguments it was selected with. `edges`, `nodes`, `totalCount` and `pageInfo` answer from the
connection's page; everything else is asked of the collection.
-/

namespace QueryEngine

/-- The collection behind a connection: one of the host, or the items of a JSON array. -/
inductive Backing (C : Type) where
  | host (handle : C)
  | values (items : List Json)

/-- A connection. -/
structure Connection (W O C : Type) where
  type : String
  /-- The type of its edges, if the connection type has them. -/
  edgeType : Option String
  /-- The type of its page info, if the connection type has it. -/
  pageInfoType : Option String
  backing : Backing C
  operations : List (PageOperation W O)
  arguments : Fields
  maxPageSize : Option Nat

variable {W O C T : Type}

namespace Backing

/-- The size of the collection. -/
def length (host : Host W O C T) : Backing C → Nat
  | .host handle => host.length handle
  | .values items => items.length

/-- The member of the collection at a position. -/
def element? (host : Host W O C T) (backing : Backing C) (position : Nat) :
    Option (Element O) :=
  match backing with
  | .host handle => host.element? handle position
  | .values items => items[position]?.map .value

/-- The members of the collection, in order. -/
def elements (host : Host W O C T) : Backing C → List (Element O)
  | .host handle => host.elements handle
  | .values items => items.map .value

/-- Invokes a capability of the collection. -/
def capability (host : Host W O C T) (backing : Backing C) (method : String)
    (arguments : Fields) (world : W) : Option (Outcome O C T) × W :=
  match backing with
  | .host handle => host.capability handle method arguments world
  | .values _ => (none, world)

end Backing

namespace Item

/-- A getter of an edge. -/
def get? (item : Item O) (method : String) : Option (FieldValue O C T) :=
  if method == "node" then some item.element.toFieldValue
  else if method == "cursor" then some (.text (Cursor.encode item.position))
  else none

end Item

namespace Connection

/-- Computes the page. -/
def paginate (host : Host W O C T) (connection : Connection W O C) (world : W) : Page O × W :=
  Page.paginate connection.operations connection.maxPageSize (connection.backing.elements host)
    connection.arguments world

/-- The edges of a page. -/
def edges (connection : Connection W O C) (items : List (Item O)) : FieldValue O C T :=
  .list (items.map fun item => .object (.edge (connection.edgeType.getD "") item))

/-- The elements of a page. -/
def nodes (items : List (Item O)) : FieldValue O C T :=
  .list (items.map fun item => item.element.toFieldValue)

/-- Where a page lies in a collection of the given size. -/
def pageInfo (size : Nat) (items : List (Item O)) : Fields :=
  let first := items.head?.map Item.position
  let last := items.getLast?.map Item.position
  let cursor (position : Option Nat) : Json :=
    match position with
    | some position => .string (Cursor.encode position)
    | none => .null
  [("hasPreviousPage", .bool (first.any (0 < ·))),
   ("hasNextPage", .bool (last.any (· + 1 < size))),
   ("startCursor", cursor first),
   ("endCursor", cursor last)]

/-- Invokes a getter of the connection. -/
def call (host : Host W O C T) (connection : Connection W O C) (method : String)
    (arguments : Fields) : Action W O (Option (Outcome O C T)) :=
  let answer (f : List (Item O) → FieldValue O C T) : Action W O (Option (Outcome O C T)) := do
    return some ((← Action.page).map f)
  if method == "edges" then answer connection.edges
  else if method == "nodes" then answer nodes
  else if method == "totalCount" then answer fun items => .value (.ofNat items.length)
  else if method == "pageInfo" then
    answer fun items =>
      .object (.json (connection.pageInfoType.getD "")
        (pageInfo (connection.backing.length host) items))
  else Action.ofWorld (connection.backing.capability host method arguments)

end Connection

/-- What the fields of a selection set are resolved on. -/
inductive Source (W O C : Type) where
  | object (object : Object O)
  | connection (connection : Connection W O C)

namespace Source

/-- The schema type of the object. -/
def typeName (host : Host W O C T) : Source W O C → String
  | .object o => host.objectType o
  | .connection c => c.type

/-- Indexes the object by a key. -/
def lookup (host : Host W O C T) (key : String) :
    Source W O C → Action W O (Option (FieldValue O C T))
  | .object (.host handle) => Action.ofWorld (host.lookup handle key)
  | .object (.json _ fields) => pure ((fields.lookup key).map .value)
  | .object (.edge _ _) | .connection _ => pure none

/-- Invokes a getter of the object, if it has that getter. -/
def call (host : Host W O C T) (method : String) (arguments : Fields) :
    Source W O C → Action W O (Option (Outcome O C T))
  | .object (.host handle) => Action.ofWorld (host.call handle method arguments)
  | .object (.json _ fields) => pure (some (.ok (.value ((fields.lookup method).getD .null))))
  | .object (.edge _ item) => pure ((item.get? method).map .ok)
  | .connection c => c.call host method arguments

end Source

end QueryEngine
