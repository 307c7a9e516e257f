import QueryEngine.Proofs.Connection.Lift
import QueryEngine.Proofs.Execution.Sound
import QueryEngine.Proofs.Selection.Map

/-!
# Recorded executions

A setting and a tree in worlds where the applications of the operations of connections are noted.
What a slot contributes is the same there, and nothing is noted but by the objects that are
connections: resolving one notes the one pipeline that made its page, if any of its fields asked
for it (`Piece.ofFrame_recorded`). So a recorded execution passes the moments of the execution
itself (`Reaches.recorded`).
-/

namespace QueryEngine

variable {W O C T : Type}

/-! ## Settings and trees -/

/-- The definition in recorded worlds. -/
def Definition.recorded (definition : Definition W O C T) : Definition (Recorded W O) O C T :=
  ⟨definition.id, definition.descriptor.recorded⟩

/-- The registry in recorded worlds. -/
def Registry.recorded (registry : Registry W O C T) : Registry (Recorded W O) O C T where
  schema := registry.schema
  registered := registry.registered.map fun entry => (entry.1, entry.2.recorded)
  registrations := registry.registrations
  deferred := registry.deferred.map fun entry => (entry.1, entry.2.map LazyResolver.recorded)
  configuration := registry.configuration

/-- A lazy resolver found for a recorded descriptor is the recorded one found for the descriptor. -/
theorem Registry.lazyResolver_recorded (registry : Registry W O C T)
    (descriptor : Descriptor W O C T) (marker : Marker) :
    registry.recorded.lazyResolver descriptor.recorded marker
      = (registry.lazyResolver descriptor marker).map LazyResolver.recorded := by
  have hlookup : ∀ deferred : List (String × Option (LazyResolver W T)),
      (deferred.map fun entry =>
          (entry.1, entry.2.map (LazyResolver.recorded (O := O)))).lookup marker.type
        = (deferred.lookup marker.type).map (Option.map LazyResolver.recorded) := by
    intro deferred
    induction deferred with
    | nil => rfl
    | cons entry rest ih =>
      obtain ⟨type, resolver⟩ := entry
      simp only [List.map_cons, List.lookup_cons, ih]
      split <;> rfl
  simp only [lazyResolver, recorded, hlookup]
  cases registry.deferred.lookup marker.type with
  | none => rfl
  | some resolver =>
    simp only [Option.map_some, Descriptor.recorded]
    cases descriptor.lazyResolver with
    | some own => rfl
    | none => cases resolver <;> rfl

/-- The node in recorded worlds. -/
abbrev Node.recorded (node : Node (Definition W O C T)) :
    Node (Definition (Recorded W O) O C T) :=
  node.map Definition.recorded id

/-- Recording does not change the arguments of a node. -/
theorem Node.arguments_recorded (node : Node (Definition W O C T)) :
    node.recorded.arguments = node.arguments := by
  rw [arguments_eq, arguments_eq, map_occurrences, id]

/-- Recording does not change when a node is included. -/
theorem Node.isIncluded_recorded (node : Node (Definition W O C T)) (vars : Fields) :
    node.recorded.isIncluded vars = node.isIncluded vars :=
  node.isIncluded_map _ _ fun _ => rfl

/-- The tree in recorded worlds. -/
def SelectionTree.recorded (tree : SelectionTree (Definition W O C T)) :
    SelectionTree (Definition (Recorded W O) O C T) :=
  tree.map Definition.recorded id

namespace Execution

/-- The setting in recorded worlds. -/
def Setting.recorded (setting : Setting W O C T) : Setting (Recorded W O) O C T where
  host := setting.host.recorded
  registry := setting.registry.recorded
  vars := setting.vars

/-- The invocation in recorded worlds. -/
def Invocation.recorded (invocation : Invocation W O C T) : Invocation (Recorded W O) O C T where
  node := invocation.node.recorded
  descriptor := invocation.descriptor.recorded
  arguments := invocation.arguments

/-- The object in recorded worlds. -/
def Frame.recorded (frame : Frame W O C T) : Frame (Recorded W O) O C T where
  path := frame.path
  source := frame.source.recorded
  concrete := frame.concrete
  node := frame.node.recorded

/-- The task in recorded worlds. -/
def Pending.recorded (pending : Pending W O C T) : Pending (Recorded W O) O C T where
  path := pending.path
  type := pending.type
  invocation := pending.invocation.recorded
  task := pending.task

/-- The piece in recorded worlds. -/
def Piece.recorded (piece : Piece W O C T) : Piece (Recorded W O) O C T where
  value := piece.value
  errors := piece.errors
  frames := piece.frames.map Frame.recorded
  pending := piece.pending.map Pending.recorded

/-! ## Values -/

namespace Piece

section
variable (setting : Setting W O C T) (invocation : Invocation W O C T)

/-- A null is the same piece in recorded worlds. -/
theorem ofNull_recorded (path : Path) (type : TypeRef) :
    (ofNull path type : Piece (Recorded W O) O C T)
      = (ofNull path type : Piece W O C T).recorded := by
  unfold ofNull
  split <;> rfl

/-- An object is the same piece in recorded worlds. -/
theorem ofSource_recorded (type : TypeRef) (path : Path) (source : Source W O C) :
    ofSource setting.recorded invocation.recorded type path source.recorded
      = (ofSource setting invocation type path source).recorded := by
  have hconcrete : source.recorded.typeName setting.recorded.host = source.typeName setting.host :=
    source.typeName_recorded setting.host
  simp only [ofSource, hconcrete, Invocation.recorded, Node.map_isComposite, Node.hasBucket_map,
    Node.map_name]
  split
  · rfl
  · split <;> rfl

/-- A value that does not fit is the same piece in recorded worlds. -/
theorem mismatch_recorded (type : TypeRef) (path : Path) (value : FieldValue O C T) :
    mismatch setting.recorded invocation.recorded type path value
      = (mismatch setting invocation type path value).recorded := by
  have hinspect : setting.recorded.host.inspect value = setting.host.inspect value :=
    setting.host.inspect_recorded value
  simp only [mismatch, hinspect, Invocation.recorded, Node.map_name]
  rfl

/-- A backing makes the same connection in recorded worlds. -/
theorem connection?_recorded (type : TypeRef) (backing : Backing C) :
    connection? setting.recorded invocation.recorded type backing
      = (connection? setting invocation type backing).map Connection.recorded := by
  obtain ⟨node, descriptor, arguments⟩ := invocation
  simp only [connection?, Invocation.recorded, Descriptor.recorded]
  cases descriptor.connection with
  | none => rfl
  | some operations => cases type.item? <;> rfl

/-- Recording does not change which type is the only one below a node. -/
theorem onlyType_recorded (type : TypeRef) :
    onlyType invocation.recorded.node type = onlyType invocation.node type := by
  simp only [onlyType, Invocation.recorded, Node.map_buckets]
  rcases invocation.node.buckets with _ | ⟨bucket, _ | ⟨second, rest⟩⟩
  · rfl
  · exact bucket.map_type _ _
  · rfl

/-- A single value is the same piece in recorded worlds, and nothing is noted. -/
theorem ofSingle_recorded (type : TypeRef) (path : Path) (value : FieldValue O C T) (world : W)
    (noted : List (Call O)) :
    ofSingle setting.recorded invocation.recorded type path value (world, noted)
      = ((ofSingle setting invocation type path value world).1.recorded,
        (ofSingle setting invocation type path value world).2, noted) := by
  have hsource : ∀ source : Source W O C,
      ofSource setting.recorded invocation.recorded type path source.recorded
        = (ofSource setting invocation type path source).recorded :=
    ofSource_recorded setting invocation type path
  have hobject : ∀ object : Object O,
      ofSource setting.recorded invocation.recorded type path (.object object)
        = (ofSource setting invocation type path (.object object)).recorded :=
    fun object => hsource (.object object)
  have hmismatch := mismatch_recorded setting invocation type path
  have hcomposite : invocation.recorded.node.isComposite = invocation.node.isComposite :=
    invocation.node.map_isComposite ..
  cases value with
  | lazy task => rfl
  | list items => simp only [ofSingle, hmismatch]
  | deferred marker =>
    have hresolver : setting.recorded.registry.lazyResolver invocation.recorded.descriptor marker
        = _ := setting.registry.lazyResolver_recorded invocation.descriptor marker
    simp only [ofSingle, hresolver]
    cases setting.registry.lazyResolver invocation.descriptor marker <;> rfl
  | object object =>
    simp only [ofSingle, hobject, hmismatch]
    split <;> rfl
  | collection collection =>
    simp only [ofSingle, connection?_recorded, hmismatch]
    cases connection? setting invocation type (.host collection) with
    | none => rfl
    | some connection =>
      exact congrArg (fun piece => (piece, world, noted)) (hsource (.connection connection))
  | value json =>
    cases json with
    | null => simp only [ofSingle, ofNull_recorded]
    | bool | number | string => rfl
    | array items =>
      simp only [ofSingle, connection?_recorded]
      cases connection? setting invocation type (.values items) with
      | none => rfl
      | some connection =>
        exact congrArg (fun piece => (piece, world, noted)) (hsource (.connection connection))
    | object fields =>
      simp only [ofSingle, hcomposite, onlyType_recorded, hobject]
      split <;> rfl

/-- Pieces put together and recorded are the recorded pieces put together. -/
theorem gather_recorded (c : Container) (parts : List (Segment × Piece W O C T)) :
    gather c (parts.map fun part => (part.1, part.2.recorded)) = (gather c parts).recorded := by
  simp [gather, recorded, List.flatMap_map, List.map_flatMap, Function.comp_def]

/-- A list of values is gone through in recorded worlds as in the worlds themselves, if each value
is. -/
theorem each_recorded {α : Type} (part : α → W → (Segment × Piece W O C T) × W)
    (part' : α → Recorded W O → (Segment × Piece (Recorded W O) O C T) × Recorded W O)
    (noted : List (Call O))
    (h : ∀ a world, part' a (world, noted)
      = (((part a world).1.1, (part a world).1.2.recorded), (part a world).2, noted))
    (values : List α) (world : W) :
    each part' values (world, noted)
      = ((each part values world).1.map fun part => (part.1, part.2.recorded),
        (each part values world).2, noted) := by
  induction values generalizing world with
  | nil => rfl
  | cons a rest ih => simp only [each, h, ih, List.map_cons]

/-- A list of items is the same piece in recorded worlds, if each item is. -/
theorem ofItems_recorded {item : Path → FieldValue O C T → W → Piece W O C T × W}
    {item' : Path → FieldValue O C T → Recorded W O → Piece (Recorded W O) O C T × Recorded W O}
    {noted : List (Call O)}
    (h : ∀ path value world, item' path value (world, noted)
      = ((item path value world).1.recorded, (item path value world).2, noted))
    (path : Path) (items : List (FieldValue O C T)) (world : W) :
    ofItems item' path items (world, noted)
      = ((ofItems item path items world).1.recorded, (ofItems item path items world).2,
        noted) := by
  have hitems := each_recorded
    (fun (value : FieldValue O C T × Nat) world =>
      ((Segment.index value.2, (item (path ++ [.index value.2]) value.1 world).1),
        (item (path ++ [.index value.2]) value.1 world).2))
    (fun value world =>
      ((.index value.2, (item' (path ++ [.index value.2]) value.1 world).1),
        (item' (path ++ [.index value.2]) value.1 world).2))
    noted (fun value world => by simp only [h]) items.zipIdx world
  have hgather := congrArg
    (fun answer : List (Segment × Piece (Recorded W O) O C T) × Recorded W O =>
      (gather .array answer.1, answer.2)) hitems
  simp only [gather_recorded] at hgather
  exact hgather

/-- A value is the same piece in recorded worlds, and nothing is noted. -/
theorem ofValue_recorded (type : TypeRef) (path : Path) (value : FieldValue O C T) (world : W)
    (noted : List (Call O)) :
    ofValue setting.recorded invocation.recorded type path value (world, noted)
      = ((ofValue setting invocation type path value world).1.recorded,
        (ofValue setting invocation type path value world).2, noted) := by
  induction type generalizing path value world with
  | named name | nonNullNamed name => exact ofSingle_recorded setting invocation ..
  | list item ih | nonNullList item ih =>
    have hitems : listItems? setting.recorded.host value = listItems? setting.host value := by
      cases value <;> rfl
    simp only [ofValue, hitems]
    cases listItems? setting.host value with
    | none => exact ofSingle_recorded setting invocation ..
    | some items => exact ofItems_recorded ih path items world

/-- The outcome of a task contributes the same, and nothing is noted. -/
theorem ofOutcome_recorded (pending : Pending W O C T) (outcome : Outcome O C T) (world : W)
    (noted : List (Call O)) :
    ofOutcome setting.recorded pending.recorded outcome (world, noted)
      = ((ofOutcome setting pending outcome world).1.recorded,
        (ofOutcome setting pending outcome world).2, noted) := by
  cases outcome with
  | ok value => exact ofValue_recorded setting pending.invocation ..
  | error error => rfl

end

end Piece

/-! ## Objects -/

/-- What is noted and known while an object is resolved: nothing, or what has become of the page if
it is a connection. -/
def Frame.Ran (setting : Setting W O C T) (frame : Frame W O C T) (calls : List (Call O))
    (known : Option (Page O)) : Prop :=
  match frame.source with
  | .object _ => known = none ∧ calls = []
  | .connection connection => connection.Ran setting.host calls known

section
variable {setting : Setting W O C T} {frame : Frame W O C T} {calls : List (Call O)}
  {known : Option (Page O)}

/-- Resolving a field comes to the same in recorded worlds, and what is noted stays what has become
of the page. -/
theorem resolveField_recorded (h : frame.Ran setting calls known)
    (descriptor : Descriptor W O C T) (arguments : Fields) (world : W) (noted : List (Call O)) :
    ∃ calls',
      resolveField setting.recorded frame.recorded descriptor.recorded arguments known
          (world, noted ++ calls)
        = ((resolveField setting frame descriptor arguments known world).1,
          (resolveField setting frame descriptor arguments known world).2.1,
          (resolveField setting frame descriptor arguments known world).2.2, noted ++ calls')
      ∧ frame.Ran setting calls'
        (resolveField setting frame descriptor arguments known world).2.1 := by
  obtain ⟨path, source, concrete, node⟩ := frame
  have haction := descriptor.resolve_recorded setting.host source arguments
  cases source with
  | object object =>
    refine ⟨calls, ?_, h⟩
    have hrun := (descriptor.resolve setting.host (.object object) arguments).run_recorded world
      (noted ++ calls)
    rw [← haction] at hrun
    exact congrArg (fun answer : Outcome O C T × Recorded W O => (answer.1, known, answer.2)) hrun
  | connection connection =>
    have hrun := Action.runWith_recorded setting.host
      (descriptor.resolve setting.host (.connection connection) arguments) h world noted
    rw [← haction] at hrun
    exact hrun

/-- An error fails the whole object in recorded worlds exactly if it does in the worlds themselves,
and what is noted stays what has become of the page. -/
theorem failsFrame_recorded (h : frame.Ran setting calls known) (error : FieldError) (world : W)
    (noted : List (Call O)) :
    ∃ calls',
      failsFrame setting.recorded frame.recorded error known (world, noted ++ calls)
        = ((failsFrame setting frame error known world).1,
          (failsFrame setting frame error known world).2.1,
          (failsFrame setting frame error known world).2.2, noted ++ calls')
      ∧ frame.Ran setting calls' (failsFrame setting frame error known world).2.1 := by
  obtain ⟨path, source, concrete, node⟩ := frame
  cases source with
  | object object => exact ⟨calls, rfl, h⟩
  | connection connection =>
    simp only [failsFrame, Frame.recorded, Source.recorded]
    cases error.isMissingCapability with
    | true => exact ⟨calls, rfl, h⟩
    | false =>
      obtain ⟨calls', he, hran⟩ :=
        Action.runWith_recorded setting.host Action.page h world noted
      refine ⟨calls', ?_, hran⟩
      have he : Action.page.runWith (connection.recorded.paginate setting.recorded.host) known
          (world, noted ++ calls) = _ := he
      simp only [Bool.false_eq_true, if_false, he]

end

namespace Piece

/-- The page of a connection that is known when its fields are resolved, up to one that fails it. -/
def settled (setting : Setting W O C T) (frame : Frame W O C T) :
    List (Node (Definition W O C T)) → Option (Page O) → W → Option (Page O)
  | [], known, _ => known
  | child :: rest, known, world =>
    match fieldPart setting frame child known world with
    | (.error _, known, _) => known
    | (.ok _, known, world) => settled setting frame rest known world

section
variable {setting : Setting W O C T} {frame : Frame W O C T} {calls : List (Call O)}
  {known : Option (Page O)}

/-- The part of a field is the same in recorded worlds, and what is noted stays what has become of
the page. -/
theorem fieldPart_recorded (h : frame.Ran setting calls known)
    (child : Node (Definition W O C T)) (world : W) (noted : List (Call O)) :
    ∃ calls',
      fieldPart setting.recorded frame.recorded child.recorded known (world, noted ++ calls)
        = ((fieldPart setting frame child known world).1.map recorded,
          (fieldPart setting frame child known world).2.1,
          (fieldPart setting frame child known world).2.2, noted ++ calls')
      ∧ frame.Ran setting calls' (fieldPart setting frame child known world).2.1 := by
  simp only [fieldPart, Node.isTypename_map, Node.definition?_map]
  cases child.isTypename with
  | true => exact ⟨calls, rfl, h⟩
  | false =>
    cases child.definition? with
    | none =>
      refine ⟨calls, ?_, h⟩
      simp only [Node.map_name, Node.map_key]
      rfl
    | some definition =>
      have harguments : definition.recorded.descriptor.coerceArguments child.recorded.arguments
          setting.recorded.vars
            = definition.descriptor.coerceArguments child.arguments setting.vars := by
        rw [Node.arguments_recorded]
        rfl
      simp only [Bool.false_eq_true, if_false, Option.map_some, harguments]
      generalize definition.descriptor.coerceArguments child.arguments setting.vars = arguments
      obtain ⟨calls', he, hran⟩ :=
        resolveField_recorded h definition.descriptor arguments world noted
      have he : resolveField setting.recorded frame.recorded definition.recorded.descriptor
        arguments known (world, noted ++ calls) = _ := he
      rw [he]
      clear he
      generalize resolveField setting frame definition.descriptor arguments known world = answer
        at hran ⊢
      obtain ⟨error | value, known', world'⟩ := answer
      · obtain ⟨calls'', he, hran⟩ := failsFrame_recorded hran error world' noted
        refine ⟨calls'', ?_, ?_⟩
        · simp only at he ⊢
          rw [he]
          rcases failsFrame setting frame error known' world' with ⟨_ | _, known'', world''⟩
          · simp only [Node.map_key]
            rfl
          · rfl
        · simp only at hran ⊢
          rcases hf : failsFrame setting frame error known' world' with ⟨_ | _, known'', world''⟩
          · simpa only [hf] using hran
          · simpa only [hf] using hran
      · refine ⟨calls', ?_, hran⟩
        have hvalue := ofValue_recorded setting ⟨child, definition.descriptor, arguments⟩
          child.type (frame.path ++ [.key child.key]) value world' (noted ++ calls')
        simp only [Node.map_type, Node.map_key]
        exact congrArg (fun answer : Piece (Recorded W O) O C T × Recorded W O =>
          (Except.ok answer.1, known', answer.2)) hvalue

/-- The parts of all fields are the same in recorded worlds, and what is noted stays what has become
of the page. -/
theorem fieldParts_recorded (h : frame.Ran setting calls known)
    (children : List (Node (Definition W O C T))) (world : W) (noted : List (Call O)) :
    ∃ calls',
      fieldParts setting.recorded frame.recorded (children.map Node.recorded) known
          (world, noted ++ calls)
        = ((fieldParts setting frame children known world).1.map
            fun part => (part.1, part.2.recorded),
          (fieldParts setting frame children known world).2.1,
          (fieldParts setting frame children known world).2.2, noted ++ calls')
      ∧ frame.Ran setting calls' (settled setting frame children known world) := by
  induction children generalizing calls known world with
  | nil => exact ⟨calls, rfl, h⟩
  | cons child rest ih =>
    obtain ⟨calls', he, hran⟩ := fieldPart_recorded h child world noted
    simp only [List.map_cons, fieldParts, settled, he]
    clear he
    generalize fieldPart setting frame child known world = answer at hran ⊢
    obtain ⟨error | piece, known', world'⟩ := answer
    · exact ⟨calls', rfl, hran⟩
    · obtain ⟨calls'', he, hran⟩ := ih hran world'
      refine ⟨calls'', ?_, hran⟩
      simp only at he
      simp only [Except.map, he, Node.map_key, List.map_cons]

/-- The fields of an object are included in recorded worlds as they are in the worlds themselves. -/
theorem included_recorded (setting : Setting W O C T) (frame : Frame W O C T) :
    included setting.recorded frame.recorded = (included setting frame).map Node.recorded := by
  have hchildren : frame.recorded.node.children? frame.recorded.concrete
      = (frame.node.children? frame.concrete).map (List.map Node.recorded) :=
    frame.node.children?_map _ _ _
  have hincluded : (fun node : Node (Definition (Recorded W O) O C T) =>
      node.isIncluded setting.vars) ∘ Node.recorded = fun node => node.isIncluded setting.vars :=
    funext fun node => node.isIncluded_recorded setting.vars
  unfold included
  rw [hchildren]
  cases frame.node.children? frame.concrete with
  | none => rfl
  | some children =>
    show (children.map Node.recorded).filter (fun node => node.isIncluded setting.vars) = _
    rw [List.filter_map, hincluded]
    rfl

/-- Closing an object with recorded parts gives the recorded piece. -/
theorem close_recorded (path : Path) (parts : List (Segment × Piece W O C T))
    (failure : Option FieldError) :
    close path (parts.map fun part => (part.1, part.2.recorded)) failure
      = (close path parts failure).recorded := by
  cases failure with
  | none => exact gather_recorded ..
  | some error =>
    have hgather := gather_recorded Container.object parts
    simp only [close, hgather, List.flatMap_map]
    rfl

/-- An object contributes the same. If it is a connection, the one pipeline that made its page is
noted, or nothing. -/
theorem ofFrame_recorded (setting : Setting W O C T) (frame : Frame W O C T) (world : W)
    (noted : List (Call O)) :
    ∃ calls,
      ofFrame setting.recorded frame.recorded (world, noted)
        = ((ofFrame setting frame world).1.recorded, (ofFrame setting frame world).2,
          noted ++ calls)
      ∧ frame.Ran setting calls
        (settled setting frame (included setting frame) none world) := by
  have hstart : frame.Ran setting [] none := by
    unfold Frame.Ran
    split
    · exact ⟨rfl, rfl⟩
    · exact .inl ⟨rfl, rfl⟩
  obtain ⟨calls, he, hran⟩ :=
    fieldParts_recorded hstart (included setting frame) world noted
  rw [List.append_nil] at he
  refine ⟨calls, ?_, hran⟩
  simp only [ofFrame, included_recorded, he]
  exact congrArg (fun piece => (piece, _, noted ++ calls)) (close_recorded frame.path _ _)

end

end Piece

end Execution

end QueryEngine
