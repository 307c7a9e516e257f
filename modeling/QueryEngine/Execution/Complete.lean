import QueryEngine.Execution.State

/-!
# Completing values

`complete` puts the value of a field into its slot. A list is completed item by item against the
item type, an object gets an empty place and is queued, a task is queued for the next drain step,
and where the field declares a connection, a collection becomes one. What does not fit the type of
the field is an error.
-/

namespace QueryEngine.Execution

variable {W O C T : Type}

/-- The items of a value that is a list. -/
def listItems? (host : Host W O C T) : FieldValue O C T → Option (List (FieldValue O C T))
  | .value (.array items) => some (items.map .value)
  | .list items => some items
  | .collection collection => some ((host.elements collection).map Element.toFieldValue)
  | _ => none

/-- The type of a JSON object that does not name one: the only type that the node has a bucket for,
or else the named type of the field. -/
def onlyType (node : Node (Definition W O C T)) (type : TypeRef) : String :=
  match node.buckets with
  | [bucket] => bucket.type
  | _ => type.inner

/-- The connection that the collection is the value of, if the field declares operations on pages
and its type is no list. -/
def connection? (setting : Setting W O C T) (invocation : Invocation W O C T) (type : TypeRef)
    (backing : Backing C) : Option (Connection W O C) :=
  match invocation.descriptor.connection, type.item? with
  | some operations, none =>
    some (setting.registry.connection type.inner operations invocation.arguments backing)
  | _, _ => none

/-- Gives an object its place and queues it, if the field has a sub-selection for its type. -/
def completeObject (setting : Setting W O C T) (invocation : Invocation W O C T) (type : TypeRef)
    (path : Path) (source : Source W O C) (state : State W O C T) : State W O C T :=
  let node := invocation.node
  let concrete := source.typeName setting.host
  if ! node.isComposite then
    state.reject path
      ("field '" ++ node.name ++ "' of type '" ++ type.text
        ++ "' has no sub-selection for object '" ++ concrete ++ "'")
  else if ! node.hasBucket concrete then
    state.reject path
      ("'" ++ concrete ++ "' is not a possible type of field '" ++ node.name ++ "'")
  else
    match state.write? path (.object []) with
    | some state => state.push ⟨path, source, concrete, node⟩
    | none => state

/-- Puts a value into its slot that is not completed item by item. -/
def completeSingle (setting : Setting W O C T) (invocation : Invocation W O C T) (type : TypeRef)
    (path : Path) (value : FieldValue O C T) (state : State W O C T) : State W O C T :=
  let node := invocation.node
  let mismatch (_ : Unit) : State W O C T :=
    state.reject path
      ("expected a value of type '" ++ type.text ++ "' for field '" ++ node.name ++ "', got "
        ++ setting.host.inspect value)
  match value with
  | .lazy task => state.enqueue ⟨path, type, invocation, task⟩
  | .deferred marker =>
    match setting.registry.lazyResolver invocation.descriptor marker with
    | .error error => state.report path error FieldError.Code.fieldResolution
    | .ok resolver =>
      let (task, world) := resolver marker invocation.arguments state.world
      { state with world }.enqueue ⟨path, type, invocation, task⟩
  | .value .null => state.writeNull path type
  | .value (.array items) =>
    match connection? setting invocation type (.values items) with
    | some connection => completeObject setting invocation type path (.connection connection) state
    | none => state.write path (.array items)
  | .value (.object fields) =>
    if node.isComposite then
      let concrete :=
        ((fields.lookup "__typename").bind Json.asString?).getD (onlyType node type)
      completeObject setting invocation type path (.object (.json concrete fields)) state
    else state.write path (.object fields)
  | .value json => state.write path json
  | .object object =>
    if type.item?.isNone then completeObject setting invocation type path (.object object) state
    else mismatch ()
  | .collection collection =>
    match connection? setting invocation type (.host collection) with
    | some connection => completeObject setting invocation type path (.connection connection) state
    | none => mismatch ()
  | .list _ => mismatch ()

/-- Puts the value of a field into its slot. -/
def complete (setting : Setting W O C T) (invocation : Invocation W O C T) :
    TypeRef → Path → FieldValue O C T → State W O C T → State W O C T
  | .list item, path, value, state =>
    match listItems? setting.host value with
    | none => completeSingle setting invocation (.list item) path value state
    | some items =>
      match state.write? path (.array (List.replicate items.length .null)) with
      | none => state
      | some state =>
        items.zipIdx.foldl (fun state (value, index) =>
          complete setting invocation item (path ++ [.index index]) value state) state
  | .nonNullList item, path, value, state =>
    match listItems? setting.host value with
    | none => completeSingle setting invocation (.nonNullList item) path value state
    | some items =>
      match state.write? path (.array (List.replicate items.length .null)) with
      | none => state
      | some state =>
        items.zipIdx.foldl (fun state (value, index) =>
          complete setting invocation item (path ++ [.index index]) value state) state
  | .named name, path, value, state =>
    completeSingle setting invocation (.named name) path value state
  | .nonNullNamed name, path, value, state =>
    completeSingle setting invocation (.nonNullNamed name) path value state

end QueryEngine.Execution
