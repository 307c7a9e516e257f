import QueryEngine.Execution.Frame
import QueryEngine.Proofs.Json.Parts

/-!
# What a slot contributes

Filling a slot changes an execution in one way only: the slot gets a value, and errors, objects and
tasks that lie within the slot are added to those that there are. A `Piece` is such a contribution,
and `State.graft` adds it. `complete` grafts the piece `Piece.ofValue` of the value it completes
(`complete_eq_graft`) and `resolveFrame` grafts the piece `Piece.ofFrame` of its object
(`resolveFrame_eq_graft`), so what an execution does with one slot can be studied apart from
everything else it has built.
-/

namespace QueryEngine.Execution

variable {W O C T : Type}

/-- What a slot contributes: the value in the slot, and the errors, the queued objects and the
queued tasks that lie in it. -/
structure Piece (W O C T : Type) where
  value : Json
  errors : List ResponseError
  frames : List (Frame W O C T)
  pending : List (Pending W O C T)

namespace Piece

/-- A value without anything else. -/
def leaf (value : Json) : Piece W O C T := ⟨value, [], [], []⟩

/-- A null with an error. -/
def failed (path : Path) (error : FieldError) (code : String) : Piece W O C T :=
  ⟨.null, [.ofFieldError error path code], [], []⟩

/-- A null that a task replaces later. -/
def waiting (pending : Pending W O C T) : Piece W O C T := ⟨.null, [], [], [pending]⟩

/-- A null that is an error if the type is non-null. -/
def ofNull (path : Path) (type : TypeRef) : Piece W O C T :=
  if type.isNonNull then
    failed path (.new ("cannot return null for non-nullable type '" ++ type.text ++ "'"))
      FieldError.Code.nullValue
  else leaf .null

/-- A null with the error of a value that does not fit the field. -/
def rejected (path : Path) (message : String) : Piece W O C T :=
  failed path (.invalid message) FieldError.Code.invalidValue

/-- Parts put together to one value. -/
def gather (c : Container) (parts : List (Segment × Piece W O C T)) : Piece W O C T where
  value := c.build (parts.map fun part => (part.1, part.2.value))
  errors := parts.flatMap (·.2.errors)
  frames := parts.flatMap (·.2.frames)
  pending := parts.flatMap (·.2.pending)

/-- Nulls under the given steps. -/
def blanks (steps : List Segment) : List (Segment × Piece W O C T) :=
  steps.map fun s => (s, leaf .null)

/-- The parts that a world yields one after the other. -/
def each {α : Type} (part : α → W → (Segment × Piece W O C T) × W) :
    List α → W → List (Segment × Piece W O C T) × W
  | [], world => ([], world)
  | a :: rest, world =>
    let (first, world) := part a world
    let (others, world) := each part rest world
    (first :: others, world)

/-- The piece of an object that a field is answered with. -/
def ofSource (setting : Setting W O C T) (invocation : Invocation W O C T) (type : TypeRef)
    (path : Path) (source : Source W O C) : Piece W O C T :=
  let node := invocation.node
  let concrete := source.typeName setting.host
  if ! node.isComposite then
    rejected path
      ("field '" ++ node.name ++ "' of type '" ++ type.text
        ++ "' has no sub-selection for object '" ++ concrete ++ "'")
  else if ! node.hasBucket concrete then
    rejected path
      ("'" ++ concrete ++ "' is not a possible type of field '" ++ node.name ++ "'")
  else ⟨.object [], [], [⟨path, source, concrete, node⟩], []⟩

/-- The piece of a value of another kind than the field has. -/
def mismatch (setting : Setting W O C T) (invocation : Invocation W O C T) (type : TypeRef)
    (path : Path) (value : FieldValue O C T) : Piece W O C T :=
  rejected path
    ("expected a value of type '" ++ type.text ++ "' for field '" ++ invocation.node.name
      ++ "', got " ++ setting.host.inspect value)

/-- The piece of a value that is not completed item by item. -/
def ofSingle (setting : Setting W O C T) (invocation : Invocation W O C T) (type : TypeRef)
    (path : Path) (value : FieldValue O C T) (world : W) : Piece W O C T × W :=
  match value with
  | .lazy task => (waiting ⟨path, type, invocation, task⟩, world)
  | .deferred marker =>
    match setting.registry.lazyResolver invocation.descriptor marker with
    | .error error => (failed path error FieldError.Code.fieldResolution, world)
    | .ok resolver =>
      let (task, world) := resolver marker invocation.arguments world
      (waiting ⟨path, type, invocation, task⟩, world)
  | .value .null => (ofNull path type, world)
  | .value (.array items) =>
    match connection? setting invocation type (.values items) with
    | some connection => (ofSource setting invocation type path (.connection connection), world)
    | none => (leaf (.array items), world)
  | .value (.object fields) =>
    if invocation.node.isComposite then
      let concrete :=
        ((fields.lookup "__typename").bind Json.asString?).getD (onlyType invocation.node type)
      (ofSource setting invocation type path (.object (.json concrete fields)), world)
    else (leaf (.object fields), world)
  | .value json => (leaf json, world)
  | .object object =>
    if type.item?.isNone then (ofSource setting invocation type path (.object object), world)
    else (mismatch setting invocation type path (.object object), world)
  | .collection collection =>
    match connection? setting invocation type (.host collection) with
    | some connection => (ofSource setting invocation type path (.connection connection), world)
    | none => (mismatch setting invocation type path (.collection collection), world)
  | .list items => (mismatch setting invocation type path (.list items), world)

/-- What the piece of a value that is not completed item by item can be. -/
inductive Single (setting : Setting W O C T) (invocation : Invocation W O C T) (type : TypeRef)
    (path : Path) (value : FieldValue O C T) : Piece W O C T → Prop
  | leaf (json : Json) (hn : json = .null → type.isNonNull = false)
    (ha : ∀ items, json = .array items → value = .value json) :
    Single setting invocation type path value (leaf json)
  | failed (error : FieldError) (code : String) :
    Single setting invocation type path value (failed path error code)
  | waiting (task : T) :
    Single setting invocation type path value (waiting ⟨path, type, invocation, task⟩)
  | object (source : Source W O C) (concrete : String)
    (hs : (∃ object, source = .object object) ∨ ∃ backing connection,
      connection? setting invocation type backing = some connection
        ∧ source = .connection connection) :
    Single setting invocation type path value
      ⟨.object [], [], [⟨path, source, concrete, invocation.node⟩], []⟩

/-- The piece of a list, given the piece of an item. -/
def ofItems (item : Path → FieldValue O C T → W → Piece W O C T × W) (path : Path)
    (items : List (FieldValue O C T)) (world : W) : Piece W O C T × W :=
  let (parts, world) :=
    each (fun (value, index) world =>
      let (piece, world) := item (path ++ [.index index]) value world
      ((.index index, piece), world)) items.zipIdx world
  (gather .array parts, world)

/-- The piece of the value of a field. -/
def ofValue (setting : Setting W O C T) (invocation : Invocation W O C T) :
    TypeRef → Path → FieldValue O C T → W → Piece W O C T × W
  | .list item, path, value, world =>
    match listItems? setting.host value with
    | none => ofSingle setting invocation (.list item) path value world
    | some items => ofItems (ofValue setting invocation item) path items world
  | .nonNullList item, path, value, world =>
    match listItems? setting.host value with
    | none => ofSingle setting invocation (.nonNullList item) path value world
    | some items => ofItems (ofValue setting invocation item) path items world
  | .named name, path, value, world =>
    ofSingle setting invocation (.named name) path value world
  | .nonNullNamed name, path, value, world =>
    ofSingle setting invocation (.nonNullNamed name) path value world

/-- The piece of the outcome of a task. -/
def ofOutcome (setting : Setting W O C T) (pending : Pending W O C T) (outcome : Outcome O C T)
    (world : W) : Piece W O C T × W :=
  match outcome with
  | .ok value => ofValue setting pending.invocation pending.type pending.path value world
  | .error error => (failed pending.path error FieldError.Code.deferredResolution, world)

/-- The piece of one field of an object, or the error that fails the whole object. -/
def fieldPart (setting : Setting W O C T) (frame : Frame W O C T)
    (child : Node (Definition W O C T)) (known : Option (Page O)) (world : W) :
    Except FieldError (Piece W O C T) × Option (Page O) × W :=
  let path := frame.path ++ [.key child.key]
  if child.isTypename then (.ok (leaf (.string frame.concrete)), known, world)
  else
    match child.definition? with
    | none =>
      (.ok (failed path
        (.new ("cannot resolve field '" ++ child.name ++ "' on '" ++ frame.concrete ++ "'"))
        FieldError.Code.fieldResolution), known, world)
    | some definition =>
      let descriptor := definition.descriptor
      let arguments := descriptor.coerceArguments child.arguments setting.vars
      match resolveField setting frame descriptor arguments known world with
      | (.ok value, known, world) =>
        let (piece, world) :=
          ofValue setting ⟨child, descriptor, arguments⟩ child.type path value world
        (.ok piece, known, world)
      | (.error error, known, world) =>
        match failsFrame setting frame error known world with
        | (true, known, world) => (.error error, known, world)
        | (false, known, world) =>
          (.ok (failed path error FieldError.Code.fieldResolution), known, world)

/-- The parts of an object, one for each of its fields up to one that fails the whole object. -/
def fieldParts (setting : Setting W O C T) (frame : Frame W O C T) :
    List (Node (Definition W O C T)) → Option (Page O) → W →
      List (Segment × Piece W O C T) × Option FieldError × W
  | [], _, world => ([], none, world)
  | child :: rest, known, world =>
    match fieldPart setting frame child known world with
    | (.error error, _, world) => ([], some error, world)
    | (.ok piece, known, world) =>
      let (parts, failure, world) := fieldParts setting frame rest known world
      ((.key child.key, piece) :: parts, failure, world)

/-- The piece of parts of an object: the object, or null if a field failed it. -/
def close (path : Path) (parts : List (Segment × Piece W O C T)) :
    Option FieldError → Piece W O C T
  | none => gather .object parts
  | some error =>
    { gather .object parts with
      value := .null
      errors := parts.flatMap (·.2.errors)
        ++ [.ofFieldError error path FieldError.Code.fieldResolution] }

/-- The fields of an object that are part of the response. -/
def included (setting : Setting W O C T) (frame : Frame W O C T) :
    List (Node (Definition W O C T)) :=
  ((frame.node.children? frame.concrete).getD []).filter (·.isIncluded setting.vars)

/-- The piece of an object. -/
def ofFrame (setting : Setting W O C T) (frame : Frame W O C T) (world : W) :
    Piece W O C T × W :=
  let (parts, failure, world) := fieldParts setting frame (included setting frame) none world
  (close frame.path parts failure, world)

section
variable {setting : Setting W O C T} {invocation : Invocation W O C T} {type : TypeRef}
  {path : Path}

/-- A null is the piece of a single value. -/
theorem single_ofNull (value : FieldValue O C T) :
    (ofNull path type).Single setting invocation type path value := by
  unfold ofNull
  split
  · exact .failed ..
  · rename_i hn
    exact .leaf _ (fun _ => by simpa using hn) nofun

/-- An object or a connection of the field is the piece of a single value. -/
theorem single_ofSource {source : Source W O C}
    (hs : (∃ object, source = .object object) ∨ ∃ backing connection,
      connection? setting invocation type backing = some connection
        ∧ source = .connection connection) (value : FieldValue O C T) :
    (ofSource setting invocation type path source).Single setting invocation type path value := by
  simp only [ofSource]
  split
  · exact .failed ..
  · split
    · exact .failed ..
    · exact .object _ _ hs

/-- One value leaves a value, an error, a task or an object. -/
theorem single_ofSingle (setting : Setting W O C T) (invocation : Invocation W O C T)
    (type : TypeRef) (path : Path) (value : FieldValue O C T) (world : W) :
    (ofSingle setting invocation type path value world).1.Single setting invocation type path
      value := by
  cases value with
  | lazy task => exact .waiting task
  | deferred marker =>
    simp only [ofSingle]
    split
    · exact .failed ..
    · exact .waiting _
  | value json =>
    cases json with
    | null => exact single_ofNull _
    | array items =>
      simp only [ofSingle]
      split
      · rename_i connection hc
        exact single_ofSource (.inr ⟨_, connection, hc, rfl⟩) _
      · exact .leaf _ nofun fun _ _ => rfl
    | object fields =>
      simp only [ofSingle]
      split
      · exact single_ofSource (.inl ⟨_, rfl⟩) _
      · exact .leaf _ nofun nofun
    | bool | number | string => exact .leaf _ nofun nofun
  | object object =>
    simp only [ofSingle]
    split
    · exact single_ofSource (.inl ⟨_, rfl⟩) _
    · exact .failed ..
  | collection collection =>
    simp only [ofSingle]
    split
    · rename_i connection hc
      exact single_ofSource (.inr ⟨_, connection, hc, rfl⟩) _
    · exact .failed ..
  | list items => exact .failed ..

end

end Piece

/-- Adds the contribution of a slot, with the world after it. -/
def State.graft (state : State W O C T) (path : Path) (result : Piece W O C T × W) :
    State W O C T where
  world := result.2
  data := state.data.fill path result.1.value
  errors := state.errors ++ result.1.errors
  frontier := state.frontier ++ result.1.frames
  pending := state.pending ++ result.1.pending

end QueryEngine.Execution
