import QueryEngine.Field.Value
import QueryEngine.Json.Inspect
import QueryEngine.Polling

/-!
# Hosts

The program around the engine: it owns the objects that fields are resolved on. Everything it does
may change its world `W`, which also says whether the execution was cancelled. A task is polled
until it is ready.
-/

namespace QueryEngine

/-- What the engine may ask the host about its objects, collections and tasks. -/
structure Host (W O C T : Type) where
  /-- The schema type of an object. -/
  typeName : O → String
  /-- Indexes an object by a key. -/
  lookup : O → String → W → Option (FieldValue O C T) × W
  /-- Invokes a getter of an object, if it has that getter. -/
  call : O → String → Fields → W → Option (Outcome O C T) × W
  /-- The size of a collection. -/
  length : C → Nat
  /-- The member of a collection at a position. -/
  element? : C → Nat → Option (Element O)
  /-- The members of a collection, in order. -/
  elements : C → List (Element O)
  /-- Invokes a capability of a collection, if it has that capability. -/
  capability : C → String → Fields → W → Option (Outcome O C T) × W
  /-- Polls a task. -/
  poll : T → W → Progress T (Outcome O C T) × W
  /-- Whether the execution was cancelled. -/
  cancelled : W → Bool

variable {W O C T : Type}

namespace Host

/-- The schema type of an object. -/
def objectType (host : Host W O C T) : Object O → String
  | .host handle => host.typeName handle
  | .json type _ => type
  | .edge type _ => type

/-- The members of a collection that only has a size and members by position. -/
def indexed (length : Nat) (element? : Nat → Option (Element O)) : List (Element O) :=
  (List.range length).filterMap element?

/-- The text that shows a member of a collection. -/
def inspectElement (host : Host W O C T) : Element O → String
  | .value json => Text.applied "Value" json.inspect
  | .object handle => Text.applied "Object" (Text.quoted (host.typeName handle))

/-- The text that shows a member of a collection with its position. -/
def inspectItem (host : Host W O C T) (item : Item O) : String :=
  Text.record "Item"
    [("position", toString item.position), ("element", host.inspectElement item.element)]

mutual

/-- The text that shows a field value. -/
def inspect (host : Host W O C T) : FieldValue O C T → String
  | .value json => Text.applied "Value" json.inspect
  | .object object => Text.applied "Object" (Text.quoted (host.objectType object))
  | .list items => Text.applied "List" (Text.bracketed (inspectAll host items))
  | .collection collection => Text.applied "Collection" (toString (host.length collection))
  | .lazy _ => "LazyValue"
  | .deferred marker => Text.applied "DeferredMarker" (Text.quoted marker.type)

/-- `inspect` of each value. -/
def inspectAll (host : Host W O C T) : List (FieldValue O C T) → List String
  | [] => []
  | item :: rest => inspect host item :: inspectAll host rest
end

end Host

end QueryEngine
