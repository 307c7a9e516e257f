import QueryEngine.Execution.Frame
import QueryEngine.Selection.Merge

/-!
# Executions

An execution resolves everything that can be resolved at once, then drains the tasks that are
queued, and so on until no task is left. Cancellation and the drain limit are looked at before each
drain step; either ends the execution with the data and the errors reached so far. `fuel` bounds
the number of drain steps, and in each step the number of polls: an execution that ends for one
fuel ends for every greater one, with the same response.
-/

namespace QueryEngine

namespace Execution

variable {W O C T : Type}

/-- Puts the outcome of a task into its slot, unless the slot is gone because an object around it
became null in the meantime. -/
def apply (setting : Setting W O C T) (state : State W O C T) (pending : Pending W O C T)
    (outcome : Outcome O C T) : State W O C T :=
  if (state.data.at? pending.path).isNone then state
  else
    match outcome with
    | .ok value => complete setting pending.invocation pending.type pending.path value state
    | .error error => state.report pending.path error FieldError.Code.deferredResolution

/-- Puts the outcomes of a batch into their slots, in the order in which they were queued. -/
def applyAll (setting : Setting W O C T) :
    List (Pending W O C T) → List (Outcome O C T) → State W O C T → State W O C T
  | pending :: rest, outcome :: outcomes, state =>
    applyAll setting rest outcomes (apply setting state pending outcome)
  | _, _, state => state

/-- Why no further drain step is taken, if that is so after `steps` steps. -/
def stop? (setting : Setting W O C T) (steps : Nat) (world : W) : Option ExecutionError :=
  if setting.host.cancelled world then some .cancelled
  else
    match setting.registry.configuration.maxDrainSteps with
    | some limit => if limit ≤ steps then some (.drainLimitExceeded limit) else none
    | none => none

/-- Forces the tasks that are queued as one batch. -/
def drain (setting : Setting W O C T) (fuel : Nat) (state : State W O C T) :
    Option (Batch (Outcome O C T) × W) :=
  Polling.drain setting.host.poll setting.host.cancelled
    setting.registry.configuration.drainMode fuel (state.pending.map Pending.task) state.world

/-- Runs from a state, after `steps` drain steps: the state at the end, and the error that ended
the execution if it did not come to its end by itself. -/
def run (setting : Setting W O C T) (levels : Nat) :
    Nat → Nat → State W O C T → Option (Option ExecutionError × State W O C T)
  | 0, _, _ => none
  | fuel + 1, steps, state =>
    let state := resolveQueued setting levels state
    if state.pending.isEmpty then some (none, state)
    else
      match stop? setting steps state.world with
      | some error => some (some error, state)
      | none =>
        match drain setting (fuel + 1) state with
        | none => none
        | some (.cancelled, world) => some (some .cancelled, { state with world, pending := [] })
        | some (.completed outcomes, world) =>
          run setting levels fuel (steps + 1)
            (applyAll setting state.pending outcomes { state with world, pending := [] })

/-- The response of a state in which an execution ended. -/
def response (error : Option ExecutionError) (state : State W O C T) : Response where
  data := some state.data
  errors := state.errors ++ (error.map ResponseError.ofExecutionError).toList
  extensions := []

end Execution

variable {W O C T : Type}

namespace Registry

/-- What merging selections needs to know, from a registry and a document. -/
def mergeContext (registry : Registry W O C T) (document : Document) :
    MergeContext (Definition W O C T) where
  schema := registry.schema
  fragment? := document.fragment?
  definition? := registry.definition?
  sameDefinition a b := a.id == b.id

/-- The selection tree of an operation of a document. -/
def selectionTree (registry : Registry W O C T) (document : Document) (name : Option String) :
    Except BuildError (SelectionTree (Definition W O C T)) :=
  match document.operation? name with
  | none => .error (.unknownOperation (name.getD ""))
  | some operation =>
    match registry.schema.root? operation.kind with
    | none => .error (.missingRootType operation.kind)
    | some rootType =>
      SelectionTree.ofOperation (registry.mergeContext document)
        registry.configuration.recursionLimit operation rootType

end Registry

namespace Execution

/-- Executes a tree against a root object: the response and the world afterwards, if the execution
ends within the fuel. -/
def execute (setting : Setting W O C T) (tree : SelectionTree (Definition W O C T)) (root : O)
    (fuel : Nat) (world : W) : Option (Response × W) :=
  (run setting tree.root.height fuel 0 (State.initial root tree world)).map
    fun (error, state) => (response error state, state.world)

/-- The response of an operation that cannot be executed. -/
def refuse (error : BuildError) : Response :=
  ⟨none, [.ofBuildError error], []⟩

/-- Builds the tree of an operation and executes it. -/
def executeRequest (setting : Setting W O C T) (document : Document) (name : Option String)
    (root : O) (fuel : Nat) (world : W) : Option (Response × W) :=
  match setting.registry.selectionTree document name with
  | .ok tree => execute setting tree root fuel world
  | .error error => some (refuse error, world)

end Execution

end QueryEngine
