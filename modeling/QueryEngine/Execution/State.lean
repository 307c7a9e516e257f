import QueryEngine.Response
import QueryEngine.Schema.Registry
import QueryEngine.Selection.Tree

/-!
# States of an execution

What an execution has built and what it still has to do: the data, with a null in every slot that
is not filled yet, the errors in the order in which they were met, the objects whose fields are
still to be resolved, and the tasks that wait for the next drain step with the slots they fill.
-/

namespace QueryEngine.Execution

variable (W O C T : Type)

/-- What stays the same during an execution. -/
structure Setting where
  host : Host W O C T
  registry : Registry W O C T
  /-- The values of the variables of the request. -/
  vars : Fields

/-- A field that was invoked on some object: its node, its descriptor and its arguments. -/
structure Invocation where
  node : Node (Definition W O C T)
  descriptor : Descriptor W O C T
  arguments : Fields

/-- An object whose selected fields are still to be resolved. -/
structure Frame where
  path : Path
  source : Source W O C
  concrete : String
  node : Node (Definition W O C T)

/-- A task with the slot that it fills. -/
structure Pending where
  path : Path
  type : TypeRef
  invocation : Invocation W O C T
  task : T

/-- The state of an execution. -/
structure State where
  world : W
  data : Json
  errors : List ResponseError
  frontier : List (Frame W O C T)
  pending : List (Pending W O C T)

variable {W O C T : Type}

namespace State

/-- The state before the fields of the root are resolved. -/
def initial (root : O) (tree : SelectionTree (Definition W O C T)) (world : W) :
    State W O C T where
  world := world
  data := .object []
  errors := []
  frontier := [⟨[], .object (.host root), tree.root.owner, tree.root⟩]
  pending := []

/-- Fills the slot at a path, if the slot exists. -/
def write? (state : State W O C T) (path : Path) (value : Json) : Option (State W O C T) :=
  (state.data.setAt? path value).map fun data => { state with data }

/-- Fills the slot at a path; nothing changes if the slot does not exist. -/
def write (state : State W O C T) (path : Path) (value : Json) : State W O C T :=
  (state.write? path value).getD state

/-- Records the error of a field, with a code for the case that it has none. -/
def report (state : State W O C T) (path : Path) (error : FieldError) (code : String) :
    State W O C T :=
  { state with errors := state.errors ++ [.ofFieldError error path code] }

/-- Fills the slot with null because of a value that does not fit the field. -/
def reject (state : State W O C T) (path : Path) (message : String) : State W O C T :=
  (state.write path .null).report path (.invalid message) FieldError.Code.invalidValue

/-- Fills the slot with null, which is an error if the type is non-null. -/
def writeNull (state : State W O C T) (path : Path) (type : TypeRef) : State W O C T :=
  let state := state.write path .null
  if type.isNonNull then
    state.report path
      (.new ("cannot return null for non-nullable type '" ++ type.text ++ "'"))
      FieldError.Code.nullValue
  else state

/-- Queues a task for the next drain step. -/
def enqueue (state : State W O C T) (pending : Pending W O C T) : State W O C T :=
  { state with pending := state.pending ++ [pending] }

/-- Queues an object whose fields are to be resolved. -/
def push (state : State W O C T) (frame : Frame W O C T) : State W O C T :=
  { state with frontier := state.frontier ++ [frame] }

end State

end QueryEngine.Execution
