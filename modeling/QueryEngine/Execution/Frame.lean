import QueryEngine.Execution.Complete

/-!
# Resolving objects

`resolveFrame` resolves the selected fields of one object, in order. Every included field gets a
null first, so the object has all its keys whatever happens next. On a connection the fields share
one page; a field that the connection does not support, or one that fails while the page cannot be
had, makes the whole connection null.
-/

namespace QueryEngine.Execution

variable {W O C T : Type}

/-- Resolves one field: the outcome, the page of the connection if it is known by then, and the
world. -/
def resolveField (setting : Setting W O C T) (frame : Frame W O C T)
    (descriptor : Descriptor W O C T) (arguments : Fields) (known : Option (Page O)) (world : W) :
    Outcome O C T × Option (Page O) × W :=
  let action := descriptor.resolve setting.host frame.source arguments
  match frame.source with
  | .connection connection => action.runWith (connection.paginate setting.host) known world
  | .object _ =>
    let (outcome, world) := action.run world
    (outcome, known, world)

/-- Whether an error of a field fails the whole object: on a connection, if the field is not
supported or the page cannot be had. Asking for the page computes it. -/
def failsFrame (setting : Setting W O C T) (frame : Frame W O C T) (error : FieldError)
    (known : Option (Page O)) (world : W) : Bool × Option (Page O) × W :=
  match frame.source with
  | .object _ => (false, known, world)
  | .connection connection =>
    if error.isMissingCapability then (true, known, world)
    else
      let (page, known, world) :=
        Action.runWith Action.page (connection.paginate setting.host) known world
      (match page with
        | .ok _ => false
        | .error _ => true, known, world)

/-- Resolves fields of one object, from left to right. -/
def resolveFields (setting : Setting W O C T) (frame : Frame W O C T) :
    List (Node (Definition W O C T)) → Option (Page O) → State W O C T → State W O C T
  | [], _, state => state
  | child :: rest, known, state =>
    let path := frame.path ++ [.key child.key]
    if child.isTypename then
      resolveFields setting frame rest known (state.write path (.string frame.concrete))
    else
      match child.definition? with
      | none =>
        resolveFields setting frame rest known
          (state.report path
            (.new ("cannot resolve field '" ++ child.name ++ "' on '" ++ frame.concrete ++ "'"))
            FieldError.Code.fieldResolution)
      | some definition =>
        let descriptor := definition.descriptor
        let arguments := descriptor.coerceArguments child.arguments setting.vars
        let (outcome, known, world) :=
          resolveField setting frame descriptor arguments known state.world
        let state := { state with world }
        match outcome with
        | .ok value =>
          resolveFields setting frame rest known
            (complete setting ⟨child, descriptor, arguments⟩ child.type path value state)
        | .error error =>
          let (fails, known, world) := failsFrame setting frame error known state.world
          let state := { state with world }
          if fails then
            (state.write frame.path .null).report frame.path error FieldError.Code.fieldResolution
          else
            resolveFields setting frame rest known
              (state.report path error FieldError.Code.fieldResolution)

/-- The object with a null for each key. -/
def placeholders (fields : Fields) (keys : List String) : Fields :=
  keys.foldl (fun fields key => Entries.put key .null fields) fields

/-- Resolves the selected fields of an object, if its place still exists. -/
def resolveFrame (setting : Setting W O C T) (frame : Frame W O C T) (state : State W O C T) :
    State W O C T :=
  match frame.node.children? frame.concrete with
  | none => state
  | some children =>
    let included := children.filter (·.isIncluded setting.vars)
    match state.data.at? frame.path with
    | some (.object fields) =>
      resolveFields setting frame included none
        (state.write frame.path (.object (placeholders fields (included.map Node.key))))
    | _ => state

/-- Resolves the objects that are queued and those that they queue, `levels` levels deep. A frame
only queues frames of nodes strictly below its own, so the height of the tree is enough. -/
def resolveQueued (setting : Setting W O C T) : Nat → State W O C T → State W O C T
  | 0, state => state
  | levels + 1, state =>
    if state.frontier.isEmpty then state
    else
      resolveQueued setting levels
        (state.frontier.foldl (fun state frame => resolveFrame setting frame state)
          { state with frontier := [] })

end QueryEngine.Execution
