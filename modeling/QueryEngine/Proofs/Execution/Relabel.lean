import QueryEngine.Execution.Run
import QueryEngine.Proofs.Selection.Map

/-!
# What an execution sees of an occurrence

An execution asks the occurrences of a node two things: whether some are included, and what the
literals of the arguments come to. If a map of occurrences changes neither (`Unseen`), then each
step on a relabelled state is the step on the state itself, relabelled (`complete_relabel`,
`resolveFrame_relabel`, `run_relabel`), and a tree and the relabelled tree have one response
(`execute_relabel`).
-/

namespace QueryEngine.Execution

variable {W O C T : Type}

/-- What the map does to the occurrences of a node cannot be told under the variables. -/
structure Unseen (vars : Fields) (g : List Occurrence → List Occurrence) : Prop where
  included (occurrences : List Occurrence) :
    someIncluded vars (g occurrences) = someIncluded vars occurrences
  overlay (defaults : Fields) (occurrences : List Occurrence) :
    Descriptor.overlay defaults (argumentsOf (g occurrences)) vars
      = Descriptor.overlay defaults (argumentsOf occurrences) vars

/-- What is done to each occurrence cannot be told if it cannot be told of one. -/
theorem Unseen.map {vars : Fields} {g : Occurrence → Occurrence}
    (hi : ∀ occurrence, (g occurrence).isIncluded vars = occurrence.isIncluded vars)
    (ho : ∀ defaults occurrence, Descriptor.overlay defaults (g occurrence).field.arguments vars
      = Descriptor.overlay defaults occurrence.field.arguments vars) :
    Unseen vars (List.map g) where
  included occurrences := by simp [someIncluded, Function.comp_def, hi]
  overlay defaults occurrences := by
    cases occurrences with
    | nil => rfl
    | cons first rest => exact ho defaults first

/-- The map does not change the argument map that a node's descriptor coerces. -/
theorem Unseen.coerceArguments {D : Type} {vars : Fields} {g : List Occurrence → List Occurrence}
    (h : Unseen vars g) (descriptor : Descriptor W O C T) (node : Node D) :
    descriptor.coerceArguments (node.map id g).arguments vars
      = descriptor.coerceArguments node.arguments vars := by
  rw [Node.arguments_eq, Node.arguments_eq, Node.map_occurrences]
  exact h.overlay descriptor.defaultArguments node.occurrences

/-! ## Relabelled states -/

/-- The invocation with other occurrences in its node. -/
def Invocation.relabel (g : List Occurrence → List Occurrence) (invocation : Invocation W O C T) :
    Invocation W O C T :=
  { invocation with node := invocation.node.map id g }

/-- The object with other occurrences in its node. -/
def Frame.relabel (g : List Occurrence → List Occurrence) (frame : Frame W O C T) : Frame W O C T :=
  { frame with node := frame.node.map id g }

/-- The task with other occurrences in its node. -/
def Pending.relabel (g : List Occurrence → List Occurrence) (pending : Pending W O C T) :
    Pending W O C T :=
  { pending with invocation := pending.invocation.relabel g }

namespace State

/-- The state with other occurrences in its nodes. -/
def relabel (g : List Occurrence → List Occurrence) (state : State W O C T) : State W O C T :=
  { state with
    frontier := state.frontier.map (Frame.relabel g)
    pending := state.pending.map (Pending.relabel g) }

section
variable (g : List Occurrence → List Occurrence) (state : State W O C T)

/-- Putting an object at the end of the queue can be relabelled before or after. -/
theorem relabel_push (frame : Frame W O C T) :
    (state.relabel g).push (frame.relabel g) = (state.push frame).relabel g := by
  simp [push, relabel]

/-- Queueing a task can be relabelled before or after. -/
theorem relabel_enqueue (pending : Pending W O C T) :
    (state.relabel g).enqueue (pending.relabel g) = (state.enqueue pending).relabel g := by
  simp [enqueue, relabel]

/-- Writing a slot that may be gone can be relabelled before or after. -/
theorem relabel_write? (path : Path) (value : Json) :
    (state.relabel g).write? path value = (state.write? path value).map (relabel g) := by
  show (state.data.setAt? path value).map _ = _
  rw [write?, Option.map_map]
  rfl

/-- Writing a slot can be relabelled before or after. -/
theorem relabel_write (path : Path) (value : Json) :
    (state.relabel g).write path value = (state.write path value).relabel g := by
  rw [write, write, relabel_write?]
  cases state.write? path value <;> rfl

/-- Reporting an error can be relabelled before or after. -/
theorem relabel_report (path : Path) (error : FieldError) (code : String) :
    (state.relabel g).report path error code = (state.report path error code).relabel g := rfl

/-- Rejecting a value can be relabelled before or after. -/
theorem relabel_reject (path : Path) (message : String) :
    (state.relabel g).reject path message = (state.reject path message).relabel g := by
  rw [reject, reject, relabel_write, relabel_report]

/-- Writing a null can be relabelled before or after. -/
theorem relabel_writeNull (path : Path) (type : TypeRef) :
    (state.relabel g).writeNull path type = (state.writeNull path type).relabel g := by
  unfold writeNull
  rw [relabel_write]
  split
  · exact relabel_report g _ path _ _
  · rfl

end

end State

/-! ## Completing and resolving -/

section
variable (setting : Setting W O C T) (g : List Occurrence → List Occurrence)

/-- Completing an object can be relabelled before or after. -/
theorem completeObject_relabel (invocation : Invocation W O C T) (type : TypeRef) (path : Path)
    (source : Source W O C) (state : State W O C T) :
    completeObject setting (invocation.relabel g) type path source (state.relabel g)
      = (completeObject setting invocation type path source state).relabel g := by
  have hnode : (invocation.relabel g).node = invocation.node.map id g := rfl
  simp only [completeObject, hnode, Node.map_isComposite, Node.hasBucket_map, Node.map_name,
    State.relabel_reject, State.relabel_write?]
  split
  · rfl
  split
  · rfl
  cases state.write? path (.object []) with
  | none => rfl
  | some written => exact State.relabel_push g written ⟨path, source, _, invocation.node⟩

/-- The only type below a node is no matter of its occurrences. -/
theorem onlyType_relabel (node : Node (Definition W O C T)) (type : TypeRef) :
    onlyType (node.map id g) type = onlyType node type := by
  unfold onlyType
  rw [Node.map_buckets]
  match node.buckets with
  | [] => rfl
  | [bucket] => exact bucket.map_type id g
  | _ :: _ :: _ => rfl

/-- Completing a single value can be relabelled before or after. -/
theorem completeSingle_relabel (invocation : Invocation W O C T) (type : TypeRef) (path : Path)
    (value : FieldValue O C T) (state : State W O C T) :
    completeSingle setting (invocation.relabel g) type path value (state.relabel g)
      = (completeSingle setting invocation type path value state).relabel g := by
  have hnode : (invocation.relabel g).node = invocation.node.map id g := rfl
  have hobj := fun source => completeObject_relabel setting g invocation type path source state
  have hreject := State.relabel_reject g state path
  have hconnection : connection? setting (invocation.relabel g) = connection? setting invocation :=
    rfl
  cases value with
  | lazy task => exact State.relabel_enqueue g state ⟨path, type, invocation, task⟩
  | deferred marker =>
    have hdescriptor : (invocation.relabel g).descriptor = invocation.descriptor := rfl
    simp only [completeSingle, hdescriptor]
    cases setting.registry.lazyResolver invocation.descriptor marker with
    | error error => rfl
    | ok resolver =>
      exact State.relabel_enqueue g
        { state with world := (resolver marker invocation.arguments state.world).2 }
        ⟨path, type, invocation, (resolver marker invocation.arguments state.world).1⟩
  | value json =>
    cases json with
    | null => exact State.relabel_writeNull g state path type
    | array items =>
      simp only [completeSingle, hconnection]
      cases connection? setting invocation type (.values items) with
      | none => exact State.relabel_write g state path _
      | some connection => exact hobj _
    | object fields =>
      simp only [completeSingle, hnode, Node.map_isComposite, onlyType_relabel]
      cases invocation.node.isComposite with
      | false => exact State.relabel_write g state path _
      | true => exact hobj _
    | bool | number | string => exact State.relabel_write g state path _
  | object object =>
    simp only [completeSingle, hnode, Node.map_name]
    cases type.item?.isNone with
    | false => exact hreject _
    | true => exact hobj _
  | collection collection =>
    simp only [completeSingle, hnode, hconnection, Node.map_name]
    cases connection? setting invocation type (.host collection) with
    | none => exact hreject _
    | some connection => exact hobj _
  | list items =>
    simp only [completeSingle, hnode, Node.map_name]
    exact hreject _

/-- Completing a value can be relabelled before or after. -/
theorem complete_relabel (invocation : Invocation W O C T) (type : TypeRef) (path : Path)
    (value : FieldValue O C T) (state : State W O C T) :
    complete setting (invocation.relabel g) type path value (state.relabel g)
      = (complete setting invocation type path value state).relabel g := by
  induction type generalizing path value state with
  | named name | nonNullNamed name =>
    exact completeSingle_relabel setting g invocation _ path value state
  | list item ih | nonNullList item ih =>
    simp only [complete]
    cases listItems? setting.host value with
    | none => exact completeSingle_relabel setting g invocation _ path value state
    | some items =>
      simp only [State.relabel_write?]
      cases state.write? path (.array (List.replicate items.length .null)) with
      | none => rfl
      | some written =>
        refine List.foldl_hom (State.relabel g) ?_
        intro state item
        exact ih (path ++ [.index item.2]) item.1 state

end

section
variable {setting : Setting W O C T} {g : List Occurrence → List Occurrence}
  (h : Unseen setting.vars g)
include h

/-- Resolving fields can be relabelled before or after. -/
theorem resolveFields_relabel (frame : Frame W O C T)
    (children : List (Node (Definition W O C T))) (known : Option (Page O))
    (state : State W O C T) :
    resolveFields setting (frame.relabel g) (children.map (Node.map id g)) known (state.relabel g)
      = (resolveFields setting frame children known state).relabel g := by
  have hresolve : resolveField setting (frame.relabel g) = resolveField setting frame := rfl
  have hfails : failsFrame setting (frame.relabel g) = failsFrame setting frame := rfl
  have hpath : (frame.relabel g).path = frame.path := rfl
  have hconcrete : (frame.relabel g).concrete = frame.concrete := rfl
  induction children generalizing known state with
  | nil => rfl
  | cons child rest ih =>
    simp only [List.map_cons, resolveFields, Node.map_key, Node.isTypename_map,
      Node.definition?_map, Option.map_id, id, Node.map_name, Node.map_type, h.coerceArguments,
      hresolve, hfails, hpath, hconcrete]
    split
    · rw [State.relabel_write]
      exact ih known _
    split
    · rw [State.relabel_report]
      exact ih known _
    · next definition hdefinition =>
      have hworld : (state.relabel g).world = state.world := rfl
      simp only [hworld]
      generalize definition.descriptor.coerceArguments child.arguments setting.vars = arguments
      generalize resolveField setting frame definition.descriptor arguments known state.world
        = resolved
      obtain ⟨outcome, known, world⟩ := resolved
      cases outcome with
      | ok value =>
        have hcomplete := complete_relabel setting g ⟨child, definition.descriptor, arguments⟩
          child.type (frame.path ++ [.key child.key]) value { state with world }
        rw [← ih, ← hcomplete]
        rfl
      | error error =>
        simp only
        generalize failsFrame setting frame error known world = failed
        obtain ⟨fails, known, world⟩ := failed
        cases fails with
        | true =>
          have hwrite := State.relabel_write g { state with world } frame.path .null
          show (State.write (State.relabel g { state with world }) frame.path .null).report
            _ _ _ = _
          rw [hwrite]
          rfl
        | false =>
          exact ih known (State.report { state with world } (frame.path ++ [.key child.key]) error
            FieldError.Code.fieldResolution)

/-- Resolving an object can be relabelled before or after, as its fields are included in the same
cases. -/
theorem resolveFrame_relabel (frame : Frame W O C T) (state : State W O C T) :
    resolveFrame setting (frame.relabel g) (state.relabel g)
      = (resolveFrame setting frame state).relabel g := by
  have hincluded : ∀ children : List (Node (Definition W O C T)),
      (children.map (Node.map id g)).filter (·.isIncluded setting.vars)
        = (children.filter (·.isIncluded setting.vars)).map (Node.map id g) := by
    intro children
    rw [List.filter_map]
    congr 1
    exact List.filter_congr fun child _ => child.isIncluded_map id g h.included
  have hdata : (state.relabel g).data = state.data := rfl
  have hchildren : (frame.relabel g).node.children? (frame.relabel g).concrete
      = (frame.node.children? frame.concrete).map (List.map (Node.map id g)) :=
    frame.node.children?_map id g frame.concrete
  have hpath : (frame.relabel g).path = frame.path := rfl
  unfold resolveFrame
  rw [hchildren, hdata, hpath]
  cases frame.node.children? frame.concrete with
  | none => rfl
  | some children =>
    have hkeys : ((children.filter (·.isIncluded setting.vars)).map (Node.map id g)).map Node.key
        = (children.filter (·.isIncluded setting.vars)).map Node.key := by
      simp [Function.comp_def]
    simp only [Option.map_some, hincluded, hkeys, State.relabel_write]
    split
    · exact resolveFields_relabel h frame _ none _
    · rfl

/-- Working the queue through can be relabelled before or after. -/
theorem resolveQueued_relabel (levels : Nat) (state : State W O C T) :
    resolveQueued setting levels (state.relabel g)
      = (resolveQueued setting levels state).relabel g := by
  induction levels generalizing state with
  | zero => rfl
  | succ levels ih =>
    have hempty : (state.relabel g).frontier.isEmpty = state.frontier.isEmpty := List.isEmpty_map
    rw [resolveQueued, resolveQueued, hempty]
    split
    · rfl
    · rw [← ih]
      congr 1
      show (state.frontier.map (Frame.relabel g)).foldl _
        (State.relabel g { state with frontier := [] }) = _
      rw [List.foldl_map]
      refine List.foldl_hom (State.relabel g) ?_
      intro state frame
      exact resolveFrame_relabel h frame state

end

/-! ## Runs -/

section
variable (setting : Setting W O C T) (g : List Occurrence → List Occurrence)

/-- Putting an outcome in its slot can be relabelled before or after. -/
theorem apply_relabel (state : State W O C T) (pending : Pending W O C T)
    (outcome : Outcome O C T) :
    apply setting (state.relabel g) (pending.relabel g) outcome
      = (apply setting state pending outcome).relabel g := by
  have hdata : (state.relabel g).data.at? (pending.relabel g).path = state.data.at? pending.path :=
    rfl
  unfold apply
  rw [hdata]
  split
  · rfl
  cases outcome with
  | error error => exact State.relabel_report g state pending.path error _
  | ok value =>
    exact complete_relabel setting g pending.invocation pending.type pending.path value state

/-- Putting outcomes in their slots can be relabelled before or after. -/
theorem applyAll_relabel (pending : List (Pending W O C T)) (outcomes : List (Outcome O C T))
    (state : State W O C T) :
    applyAll setting (pending.map (Pending.relabel g)) outcomes (state.relabel g)
      = (applyAll setting pending outcomes state).relabel g := by
  induction pending generalizing outcomes state with
  | nil => rfl
  | cons first rest ih =>
    cases outcomes with
    | nil => rfl
    | cons outcome outcomes =>
      show applyAll setting (rest.map (Pending.relabel g)) outcomes (apply setting _ _ _) = _
      rw [apply_relabel, ih]
      rfl

/-- Draining asks the tasks alone, so relabelling does not change it. -/
theorem drain_relabel (fuel : Nat) (state : State W O C T) :
    drain setting fuel (state.relabel g) = drain setting fuel state := by
  have htasks : (state.relabel g).pending.map Pending.task = state.pending.map Pending.task := by
    simp [State.relabel, Pending.relabel, Function.comp_def]
  rw [drain, drain, htasks]
  rfl

end

section
variable {setting : Setting W O C T} {g : List Occurrence → List Occurrence}
  (h : Unseen setting.vars g)
include h

/-- A run from a relabelled state ends where the run from the state ends. -/
theorem run_relabel (levels fuel steps : Nat) (state : State W O C T) :
    run setting levels fuel steps (state.relabel g)
      = (run setting levels fuel steps state).map fun (error, last) => (error, last.relabel g) := by
  induction fuel generalizing steps state with
  | zero => rfl
  | succ fuel ih =>
    simp only [run, resolveQueued_relabel h]
    generalize resolveQueued setting levels state = reached
    have hempty : (reached.relabel g).pending.isEmpty = reached.pending.isEmpty := List.isEmpty_map
    have hstop :
        stop? setting steps (reached.relabel g).world = stop? setting steps reached.world :=
      rfl
    rw [hempty, hstop, drain_relabel]
    split
    · rfl
    split
    · rfl
    split
    · rfl
    · rfl
    · next outcomes world hd =>
      have happlied := applyAll_relabel setting g reached.pending outcomes
        { reached with world, pending := [] }
      rw [← ih]
      congr 1

/-- A tree and the relabelled tree have one response. -/
theorem execute_relabel (tree : SelectionTree (Definition W O C T)) (root : O) (fuel : Nat)
    (world : W) :
    execute setting (tree.map id g) root fuel world = execute setting tree root fuel world := by
  have hinitial : State.initial root (tree.map id g) world
      = (State.initial root tree world).relabel g := by
    simp [State.initial, State.relabel, Frame.relabel, SelectionTree.map]
  have hheight : (tree.map id g).root.height = tree.root.height := tree.root.height_map id g
  rw [execute, execute, hinitial, hheight, run_relabel h, Option.map_map]
  rfl

end

end QueryEngine.Execution
