import QueryEngine.Proofs.Execution.Effect

/-!
# A depth-first interpreter

What an execution without side effects should come to, said without queues and without paths to
write to: `interpret` resolves each field of an object, completes its value item by item, answers
an object in it at once and awaits a task in it on the spot. A connection with a field that fails
it is null. The interpreter has a depth, which bounds the nesting of objects and tasks and the
polls of each task; a greater depth does not change an answer (`answer_mono`).
-/

namespace QueryEngine.Execution

variable {W O C T : Type}

/-- What a slot comes to. -/
structure Answer where
  value : Json
  errors : List ResponseError
  /-- Whether an object in it is null because one of its fields failed it. -/
  nulled : Bool

namespace Answer

/-- A value without errors. -/
def leaf (value : Json) : Answer := ⟨value, [], false⟩

/-- A null with an error. -/
def failed (path : Path) (error : FieldError) (code : String) : Answer :=
  ⟨.null, [.ofFieldError error path code], false⟩

/-- Answers put together. -/
def gather (c : Container) (parts : List (Segment × Answer)) : Answer where
  value := c.build (parts.map fun part => (part.1, part.2.value))
  errors := parts.flatMap (·.2.errors)
  nulled := parts.any (·.2.nulled)

end Answer

/-- What a null comes to, which is an error if the type is non-null. -/
def answerNull (path : Path) (type : TypeRef) : Answer :=
  if type.isNonNull then
    .failed path (.new ("cannot return null for non-nullable type '" ++ type.text ++ "'"))
      FieldError.Code.nullValue
  else .leaf .null

/-- What a value comes to that does not fit the field. -/
def rejection (path : Path) (message : String) : Answer :=
  .failed path (.invalid message) FieldError.Code.invalidValue

/-- What a value of another kind than the field has comes to. -/
def mismatch (setting : Setting W O C T) (invocation : Invocation W O C T) (type : TypeRef)
    (path : Path) (value : FieldValue O C T) : Answer :=
  rejection path
    ("expected a value of type '" ++ type.text ++ "' for field '" ++ invocation.node.name
      ++ "', got " ++ setting.host.inspect value)

section
variable (setting : Setting W O C T) (world : W) (deeper : Work W O C T → Option Answer)

/-- What an object comes to that a field is resolved to: it is answered at once. -/
def answerSource (invocation : Invocation W O C T) (type : TypeRef) (path : Path)
    (source : Source W O C) : Option Answer :=
  let node := invocation.node
  let concrete := source.typeName setting.host
  if ! node.isComposite then
    some (rejection path
      ("field '" ++ node.name ++ "' of type '" ++ type.text
        ++ "' has no sub-selection for object '" ++ concrete ++ "'"))
  else if ! node.hasBucket concrete then
    some (rejection path
      ("'" ++ concrete ++ "' is not a possible type of field '" ++ node.name ++ "'"))
  else deeper (.object ⟨path, source, concrete, node⟩)

/-- What a value that is no list comes to. A task is awaited at once, be it the value or made of
a marker that has a resolver. -/
def answerSingle (invocation : Invocation W O C T) (type : TypeRef) (path : Path)
    (value : FieldValue O C T) : Option Answer :=
  match value with
  | .lazy task => deeper (.task ⟨path, type, invocation, task⟩)
  | .deferred marker =>
    match setting.registry.lazyResolver invocation.descriptor marker with
    | .error error => some (.failed path error FieldError.Code.fieldResolution)
    | .ok resolver =>
      deeper (.task ⟨path, type, invocation, (resolver marker invocation.arguments world).1⟩)
  | .value .null => some (answerNull path type)
  | .value (.array items) =>
    match connection? setting invocation type (.values items) with
    | some connection => answerSource setting deeper invocation type path (.connection connection)
    | none => some (.leaf (.array items))
  | .value (.object fields) =>
    if invocation.node.isComposite then
      let concrete :=
        ((fields.lookup "__typename").bind Json.asString?).getD (onlyType invocation.node type)
      answerSource setting deeper invocation type path (.object (.json concrete fields))
    else some (.leaf (.object fields))
  | .value json => some (.leaf json)
  | .object object =>
    if type.item?.isNone then answerSource setting deeper invocation type path (.object object)
    else some (mismatch setting invocation type path (.object object))
  | .collection collection =>
    match connection? setting invocation type (.host collection) with
    | some connection => answerSource setting deeper invocation type path (.connection connection)
    | none => some (mismatch setting invocation type path (.collection collection))
  | .list items => some (mismatch setting invocation type path (.list items))

/-- What the items of a list come to, given what one item comes to. -/
def answerItems (item : Path → FieldValue O C T → Option Answer) (path : Path)
    (items : List (FieldValue O C T)) : Option Answer :=
  (items.zipIdx.mapM fun (value, index) =>
    (item (path ++ [Segment.index index]) value).map (Segment.index index, ·)).map (.gather .array)

/-- What the value of a field comes to. -/
def answerValue (invocation : Invocation W O C T) :
    TypeRef → Path → FieldValue O C T → Option Answer
  | .list item, path, value =>
    match listItems? setting.host value with
    | none => answerSingle setting world deeper invocation (.list item) path value
    | some items => answerItems (answerValue invocation item) path items
  | .nonNullList item, path, value =>
    match listItems? setting.host value with
    | none => answerSingle setting world deeper invocation (.nonNullList item) path value
    | some items => answerItems (answerValue invocation item) path items
  | .named name, path, value =>
    answerSingle setting world deeper invocation (.named name) path value
  | .nonNullNamed name, path, value =>
    answerSingle setting world deeper invocation (.nonNullNamed name) path value

/-- What a field of an object comes to. -/
def answerField (frame : Frame W O C T) (child : Node (Definition W O C T)) : Option Answer :=
  let path := frame.path ++ [.key child.key]
  if child.isTypename then some (.leaf (.string frame.concrete))
  else
    match child.definition? with
    | none =>
      some (.failed path
        (.new ("cannot resolve field '" ++ child.name ++ "' on '" ++ frame.concrete ++ "'"))
        FieldError.Code.fieldResolution)
    | some definition =>
      let descriptor := definition.descriptor
      let arguments := descriptor.coerceArguments child.arguments setting.vars
      match outcomeOf setting world frame.source descriptor arguments with
      | .ok value =>
        answerValue setting world deeper ⟨child, descriptor, arguments⟩ child.type path value
      | .error error => some (.failed path error FieldError.Code.fieldResolution)

/-- The error by which a field makes its whole object null, if the field is resolved to one. -/
def failing? (frame : Frame W O C T) (child : Node (Definition W O C T)) : Option FieldError :=
  if child.isTypename then none
  else
    child.definition?.bind fun definition =>
      let descriptor := definition.descriptor
      let arguments := descriptor.coerceArguments child.arguments setting.vars
      match outcomeOf setting world frame.source descriptor arguments with
      | .ok _ => none
      | .error error => if failsObject setting world frame.source error then some error else none

/-- What an object comes to. -/
def answerObject (frame : Frame W O C T) : Option Answer :=
  match (Piece.included setting frame).findSome? (failing? setting world frame) with
  | some error =>
    some ⟨.null, [.ofFieldError error frame.path FieldError.Code.fieldResolution], true⟩
  | none =>
    ((Piece.included setting frame).mapM fun child =>
      (answerField setting world deeper frame child).map (Segment.key child.key, ·)).map
        (.gather .object)

/-- What the outcome of a task comes to. -/
def answerOutcome (pending : Pending W O C T) : Outcome O C T → Option Answer
  | .ok value =>
    answerValue setting world deeper pending.invocation pending.type pending.path value
  | .error error => some (.failed pending.path error FieldError.Code.deferredResolution)

/-- What open work comes to, down to a depth. -/
def answer (setting : Setting W O C T) (world : W) : Nat → Work W O C T → Option Answer
  | 0, _ => none
  | depth + 1, .object frame => answerObject setting world (answer setting world depth) frame
  | depth + 1, .task pending =>
    (Polling.await setting.host.poll world (depth + 1) pending.task).bind
      (answerOutcome setting world (answer setting world depth) pending)
  | depth + 1, .outcome pending outcome =>
    answerOutcome setting world (answer setting world depth) pending outcome

/-- The interpreter: what the root object comes to. -/
def interpret (tree : SelectionTree (Definition W O C T)) (root : O) (depth : Nat) :
    Option Answer :=
  answer setting world depth (.object ⟨[], .object (.host root), tree.root.owner, tree.root⟩)

end

/-! ## A value that is no list -/

section
variable {setting : Setting W O C T} {world : W} {deeper : Work W O C T → Option Answer}

/-- What a piece comes to that leaves at most one slot open. -/
def Piece.answered (deeper : Work W O C T → Option Answer) (piece : Piece W O C T) :
    Option Answer :=
  match piece.works with
  | [] => some ⟨piece.value, piece.errors, false⟩
  | work :: _ => deeper work

/-- A null is its own answer. -/
theorem answered_ofNull (path : Path) (type : TypeRef) :
    (Piece.ofNull path type).answered deeper = some (answerNull path type) := by
  unfold Piece.ofNull answerNull
  split <;> rfl

/-- The answer to an object is what the interpreter makes of it. -/
theorem answered_ofSource (invocation : Invocation W O C T) (type : TypeRef) (path : Path)
    (source : Source W O C) :
    (Piece.ofSource setting invocation type path source).answered deeper
      = answerSource setting deeper invocation type path source := by
  unfold Piece.ofSource answerSource
  dsimp only
  split
  · rfl
  · split <;> rfl

/-- The interpreter answers a value that is no list as its piece says. -/
theorem answerSingle_eq (invocation : Invocation W O C T) (type : TypeRef) (path : Path)
    (value : FieldValue O C T) :
    answerSingle setting world deeper invocation type path value
      = (Piece.ofSingle setting invocation type path value world).1.answered deeper := by
  fun_cases answerSingle setting world deeper invocation type path value <;>
    simp_all [Piece.ofSingle, answered_ofNull, answered_ofSource] <;> rfl

end

/-! ## Greater depths -/

section
variable {setting : Setting W O C T} {world : W} {deeper more : Work W O C T → Option Answer}
  (hd : ∀ work a, deeper work = some a → more work = some a)
include hd

/-- A single value that has an answer keeps it if deeper work is answered more often. -/
theorem answerSingle_mono {invocation : Invocation W O C T} {type : TypeRef} {path : Path}
    {value : FieldValue O C T} {a : Answer}
    (h : answerSingle setting world deeper invocation type path value = some a) :
    answerSingle setting world more invocation type path value = some a := by
  rw [answerSingle_eq] at h ⊢
  unfold Piece.answered at h ⊢
  split at h
  · exact h
  · exact hd _ _ h

omit hd in
/-- Items that have answers keep them if each item does. -/
theorem answerItems_mono {item other : Path → FieldValue O C T → Option Answer}
    (hi : ∀ path value a, item path value = some a → other path value = some a) {path : Path}
    {items : List (FieldValue O C T)} {a : Answer} (h : answerItems item path items = some a) :
    answerItems other path items = some a := by
  obtain ⟨parts, hm, rfl⟩ := Option.map_eq_some_iff.1 h
  refine Option.map_eq_some_iff.2 ⟨parts, mapM_mono ?_ hm, rfl⟩
  intro value part hp
  obtain ⟨a, ha, rfl⟩ := Option.map_eq_some_iff.1 hp
  exact Option.map_eq_some_iff.2 ⟨a, hi _ _ _ ha, rfl⟩

/-- A value that has an answer keeps it if deeper work is answered more often. -/
theorem answerValue_mono {invocation : Invocation W O C T} {type : TypeRef} {path : Path}
    {value : FieldValue O C T} {a : Answer}
    (h : answerValue setting world deeper invocation type path value = some a) :
    answerValue setting world more invocation type path value = some a := by
  induction type generalizing path value a with
  | named name | nonNullNamed name => exact answerSingle_mono hd h
  | list item ih | nonNullList item ih =>
    simp only [answerValue] at h ⊢
    split at h
    · exact answerSingle_mono hd h
    · exact answerItems_mono (fun _ _ _ => ih) h

/-- An outcome that has an answer keeps it if deeper work is answered more often. -/
theorem answerOutcome_mono {pending : Pending W O C T} {outcome : Outcome O C T} {a : Answer}
    (h : answerOutcome setting world deeper pending outcome = some a) :
    answerOutcome setting world more pending outcome = some a := by
  cases outcome with
  | ok value => exact answerValue_mono hd h
  | error error => exact h

/-- A field that has an answer keeps it if deeper work is answered more often. -/
theorem answerField_mono {frame : Frame W O C T} {child : Node (Definition W O C T)} {a : Answer}
    (h : answerField setting world deeper frame child = some a) :
    answerField setting world more frame child = some a := by
  revert h
  simp only [answerField]
  cases child.isTypename with
  | true => exact id
  | false =>
    cases child.definition? with
    | none => exact id
    | some definition =>
      simp only [Bool.false_eq_true, if_false]
      cases outcomeOf setting world frame.source definition.descriptor
        (definition.descriptor.coerceArguments child.arguments setting.vars) with
      | ok value => exact answerValue_mono hd
      | error error => exact id

/-- An object that has an answer keeps it if deeper work is answered more often. -/
theorem answerObject_mono {frame : Frame W O C T} {a : Answer}
    (h : answerObject setting world deeper frame = some a) :
    answerObject setting world more frame = some a := by
  simp only [answerObject] at h ⊢
  split at h
  · exact h
  · obtain ⟨parts, hm, rfl⟩ := Option.map_eq_some_iff.1 h
    refine Option.map_eq_some_iff.2 ⟨parts, mapM_mono ?_ hm, rfl⟩
    intro child part hp
    obtain ⟨a, ha, rfl⟩ := Option.map_eq_some_iff.1 hp
    exact Option.map_eq_some_iff.2 ⟨a, answerField_mono hd ha, rfl⟩

end

/-- A greater depth does not change an answer. -/
theorem answer_mono {setting : Setting W O C T} {world : W} {depth more : Nat}
    (hle : depth ≤ more) {work : Work W O C T} {a : Answer}
    (h : answer setting world depth work = some a) : answer setting world more work = some a := by
  induction depth generalizing more work a with
  | zero => cases h
  | succ depth ih =>
    cases more with
    | zero => omega
    | succ more =>
      have hd : ∀ work a, answer setting world depth work = some a →
          answer setting world more work = some a := fun _ _ => ih (by omega)
      cases work with
      | object frame => exact answerObject_mono hd h
      | task pending =>
        obtain ⟨outcome, ho, h⟩ := Option.bind_eq_some_iff.1 h
        exact Option.bind_eq_some_iff.2
          ⟨outcome, Polling.await_mono ho hle, answerOutcome_mono hd h⟩
      | outcome pending outcome => exact answerOutcome_mono hd h

end QueryEngine.Execution
