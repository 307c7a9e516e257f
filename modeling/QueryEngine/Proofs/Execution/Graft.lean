import QueryEngine.Proofs.Execution.Piece

/-!
# Filling a slot is grafting a piece

`complete` on a slot that holds null grafts the piece of the value (`complete_eq_graft`), and
`resolveFrame` on a slot that holds the empty object grafts the piece of the object
(`resolveFrame_eq_graft`). A list and an object are filled part by part: while some parts are done
and the others are still null, the state is the one that grafts the parts done and nulls for the
rest (`graft_gather_step`).
-/

namespace QueryEngine.Execution

variable {W O C T : Type}

namespace State

@[simp] theorem graft_world (state : State W O C T) (path : Path) (result : Piece W O C T × W) :
    (state.graft path result).world = result.2 := rfl

@[simp] theorem graft_data (state : State W O C T) (path : Path) (result : Piece W O C T × W) :
    (state.graft path result).data = state.data.fill path result.1.value := rfl

/-- Writing a slot that exists grafts the value there. -/
theorem write?_eq {state : State W O C T} {path : Path} (h : (state.data.at? path).isSome)
    (value : Json) :
    state.write? path value = some (state.graft path (.leaf value, state.world)) := by
  simp [write?, Json.setAt?_eq_some h, graft, Piece.leaf]

/-- Writing a slot that exists grafts the value there, and a missing slot does not come up. -/
theorem write_eq {state : State W O C T} {path : Path} (h : (state.data.at? path).isSome)
    (value : Json) : state.write path value = state.graft path (.leaf value, state.world) := by
  simp [write, write?_eq h]

/-- What is grafted over a value is all that is left of it. -/
theorem graft_graft_self {state : State W O C T} {path : Path}
    (h : (state.data.at? path).isSome) (value : Json) (world : W) (result : Piece W O C T × W) :
    (state.graft path (.leaf value, world)).graft path result = state.graft path result := by
  simp [graft, Piece.leaf, Json.fill_fill_self h]

/-- Grafting a null onto a null only adds to the errors and the queues. -/
theorem graft_null {state : State W O C T} {path : Path} (h : state.data.at? path = some .null)
    {result : Piece W O C T × W} (hv : result.1.value = .null) :
    state.graft path result
      = { state with
          world := result.2
          errors := state.errors ++ result.1.errors
          frontier := state.frontier ++ result.1.frames
          pending := state.pending ++ result.1.pending } := by
  simp [graft, hv, Json.fill_self h]

/-- Reporting an error where null is grafts the error. -/
theorem report_eq {state : State W O C T} {path : Path} (h : state.data.at? path = some .null)
    (error : FieldError) (code : String) :
    state.report path error code
      = state.graft path (.failed path error code, state.world) := by
  rw [graft_null h rfl]
  simp [Piece.failed, report]

/-- Queueing a task where null is grafts the task. -/
theorem enqueue_eq {state : State W O C T} {pending : Pending W O C T} {world : W}
    (h : state.data.at? pending.path = some .null) :
    { state with world }.enqueue pending = state.graft pending.path (.waiting pending, world) := by
  rw [graft_null h rfl]
  simp [Piece.waiting, enqueue]

/-- Rejecting a value where null is grafts the rejection. -/
theorem reject_eq {state : State W O C T} {path : Path} (h : state.data.at? path = some .null)
    (message : String) :
    state.reject path message = state.graft path (.rejected path message, state.world) := by
  have hs : (state.data.at? path).isSome := by simp [h]
  rw [reject, write_eq hs, report_eq (by simp [Json.at?_fill_self hs, Piece.leaf]),
    graft_graft_self hs]
  rfl

/-- Writing a null where null is grafts that null, with an error if the type has none. -/
theorem writeNull_eq {state : State W O C T} {path : Path}
    (h : state.data.at? path = some .null) (type : TypeRef) :
    state.writeNull path type = state.graft path (.ofNull path type, state.world) := by
  have hs : (state.data.at? path).isSome := by simp [h]
  have hn : (state.graft path (.leaf .null, state.world)).data.at? path = some .null := by
    simp [Json.at?_fill_self hs, Piece.leaf]
  simp only [writeNull, Piece.ofNull, write_eq hs]
  split
  · rw [report_eq hn, graft_graft_self hs]; rfl
  · rfl

end State

/-! ## Parts -/

namespace Piece

@[simp] theorem map_fst_blanks (steps : List Segment) :
    (blanks steps : List (Segment × Piece W O C T)).map Prod.fst = steps := by
  simp [blanks, Function.comp_def]

/-- Blanks contribute nothing but their nulls. -/
theorem flatMap_blanks {β : Type} {f : Piece W O C T → List β} (hf : f (leaf .null) = [])
    (steps : List Segment) : (blanks steps).flatMap (fun part => f part.2) = [] := by
  simp [blanks, List.flatMap_eq_nil_iff, hf]

/-- Blanks put together are a container of nulls. -/
theorem gather_blanks (c : Container) (steps : List Segment) :
    (gather c (blanks steps) : Piece W O C T)
      = leaf (c.build (steps.map fun s => (s, .null))) := by
  simp only [gather, flatMap_blanks (f := errors) rfl, flatMap_blanks (f := frames) rfl,
    flatMap_blanks (f := pending) rfl]
  simp [leaf, blanks, Function.comp_def]

/-- The steps of parts that are gathered. -/
theorem map_fst_values (parts : List (Segment × Piece W O C T)) :
    (parts.map fun part => (part.1, part.2.value)).map Prod.fst = parts.map Prod.fst := by
  simp [Function.comp_def]

/-- Below a step of a gathered value lies what lies in the part. -/
theorem at?_gather {c : Container} {parts : List (Segment × Piece W O C T)}
    (h : c.Admits (parts.map Prod.fst)) {s : Segment} {piece : Piece W O C T}
    (hm : (s, piece) ∈ parts) (rest : Path) :
    (gather c parts).value.at? (s :: rest) = piece.value.at? rest := by
  have hv := List.mem_map_of_mem (f := fun part => (part.1, part.2.value)) hm
  exact Container.at?_build (by rwa [map_fst_values]) hv rest

end Piece

section
variable {state : State W O C T} {path : Path} {c : Container} {s : Segment}
  {before : List (Segment × Piece W O C T)} {after : List Segment}

/-- The next part of a value is a blank. -/
theorem State.at?_graft_blank (hp : (state.data.at? path).isSome)
    (h : c.Admits (before.map Prod.fst ++ s :: after)) (world : W) :
    (state.graft path (.gather c (before ++ Piece.blanks (s :: after)), world)).data.at?
      (path ++ [s]) = some .null := by
  have hm : (s, .leaf .null) ∈ before ++ Piece.blanks (s :: after) := by simp [Piece.blanks]
  rw [graft_data, Json.at?_fill_append hp, Piece.at?_gather (by simpa using h) hm]
  rfl

/-- Grafting the next part of a value exchanges its blank for it. -/
theorem State.graft_gather_step (hp : (state.data.at? path).isSome)
    (h : c.Admits (before.map Prod.fst ++ s :: after)) (world : W)
    (result : Piece W O C T × W) :
    (state.graft path (.gather c (before ++ Piece.blanks (s :: after)), world)).graft
        (path ++ [s]) result
      = state.graft path
          (.gather c (before ++ [(s, result.1)] ++ Piece.blanks after), result.2) := by
  have hv : (Piece.gather c (before ++ Piece.blanks (s :: after))).value.fill [s] result.1.value
      = (Piece.gather c (before ++ [(s, result.1)] ++ Piece.blanks after)).value := by
    simp only [Piece.gather, Piece.blanks, List.map_append, List.map_cons, List.append_assoc,
      List.cons_append, List.nil_append]
    rw [Container.fill_build (by simpa [Function.comp_def] using h), Json.fill_nil]
  simp only [State.graft, Json.fill_fill_append hp, hv, State.mk.injEq, true_and]
  simp only [Piece.gather, List.flatMap_append, Piece.flatMap_blanks (f := Piece.errors) rfl,
    Piece.flatMap_blanks (f := Piece.frames) rfl, Piece.flatMap_blanks (f := Piece.pending) rfl]
  simp

end

/-! ## Values -/

section
variable (setting : Setting W O C T) (invocation : Invocation W O C T) (type : TypeRef)

/-- Completing an object where null is grafts the piece of the object. -/
theorem completeObject_eq_graft {path : Path} (source : Source W O C) {state : State W O C T}
    (h : state.data.at? path = some .null) :
    completeObject setting invocation type path source state
      = state.graft path (.ofSource setting invocation type path source, state.world) := by
  have hs : (state.data.at? path).isSome := by simp [h]
  simp only [completeObject, Piece.ofSource]
  split
  · exact State.reject_eq h _
  · split
    · exact State.reject_eq h _
    · simp [State.write?_eq hs, State.push, State.graft, Piece.leaf]

/-- A value that is not completed item by item is grafted. -/
theorem completeSingle_eq_graft (path : Path) (value : FieldValue O C T)
    (state : State W O C T) (h : state.data.at? path = some .null) :
    completeSingle setting invocation type path value state
      = state.graft path (Piece.ofSingle setting invocation type path value state.world) := by
  have hs : (state.data.at? path).isSome := by simp [h]
  have hobj := fun source => completeObject_eq_graft setting invocation type source h
  cases value with
  | lazy task => exact State.enqueue_eq h
  | deferred marker =>
    simp only [completeSingle, Piece.ofSingle]
    cases setting.registry.lazyResolver invocation.descriptor marker with
    | error error => exact State.report_eq h _ _
    | ok resolver => exact State.enqueue_eq h
  | value json =>
    cases json with
    | null => exact State.writeNull_eq h type
    | array items =>
      simp only [completeSingle, Piece.ofSingle]
      cases connection? setting invocation type (.values items) with
      | none => exact State.write_eq hs _
      | some connection => exact hobj _
    | object fields =>
      simp only [completeSingle, Piece.ofSingle]
      cases invocation.node.isComposite with
      | false => exact State.write_eq hs _
      | true => exact hobj _
    | bool | number | string => exact State.write_eq hs _
  | object object =>
    simp only [completeSingle, Piece.ofSingle]
    cases type.item?.isNone with
    | false => exact State.reject_eq h _
    | true => exact hobj _
  | collection collection =>
    simp only [completeSingle, Piece.ofSingle]
    cases connection? setting invocation type (.host collection) with
    | none => exact State.reject_eq h _
    | some connection => exact hobj _
  | list items => exact State.reject_eq h _

end

/-- Whether a way to fill a slot grafts a piece, if the slot holds null. -/
def Grafts (fill : Path → FieldValue O C T → State W O C T → State W O C T)
    (piece : Path → FieldValue O C T → W → Piece W O C T × W) : Prop :=
  ∀ (path : Path) (value : FieldValue O C T) (state : State W O C T),
    state.data.at? path = some .null →
      fill path value state = state.graft path (piece path value state.world)

/-- Positions of an array, from `n` on. -/
def positions (n count : Nat) : List Segment := (List.range' n count).map .index

/-- One more position comes first, and the others move up. -/
theorem positions_succ (n count : Nat) :
    positions n (count + 1) = .index n :: positions (n + 1) count := by
  simp [positions, List.range'_succ]

section
variable {fill : Path → FieldValue O C T → State W O C T → State W O C T}
  {piece : Path → FieldValue O C T → W → Piece W O C T × W} {path : Path}

/-- Items are grafted one after the other; `before` are the parts of those that are done. -/
theorem foldl_items_eq_graft (hf : Grafts fill piece) {start : State W O C T}
    (hp : (start.data.at? path).isSome) (items : List (FieldValue O C T)) (n : Nat)
    (before : List (Segment × Piece W O C T)) (world : W)
    (ha : Container.array.Admits (before.map Prod.fst ++ positions n items.length)) :
    (items.zipIdx n).foldl
        (fun state (value, index) => fill (path ++ [.index index]) value state)
        (start.graft path
          (.gather .array (before ++ Piece.blanks (positions n items.length)), world))
      = let (parts, world) := Piece.each (fun (value, index) world =>
          let (piece, world) := piece (path ++ [.index index]) value world
          ((.index index, piece), world)) (items.zipIdx n) world
        start.graft path (.gather .array (before ++ parts), world) := by
  induction items generalizing n before world with
  | nil => simp [positions, Piece.blanks, Piece.each]
  | cons item rest ih =>
    rw [List.length_cons, positions_succ] at ha ⊢
    simp only [List.zipIdx_cons, List.foldl_cons, Piece.each]
    rw [hf _ _ _ (State.at?_graft_blank hp ha world), State.graft_gather_step hp ha,
      State.graft_world, ih (n + 1) _ _ (by simpa using ha)]
    simp

/-- A list is grafted as a whole. -/
theorem items_eq_graft (hf : Grafts fill piece) (items : List (FieldValue O C T))
    {state : State W O C T} (h : state.data.at? path = some .null) :
    (match state.write? path (.array (List.replicate items.length .null)) with
      | none => state
      | some state =>
        items.zipIdx.foldl (fun state (value, index) =>
          fill (path ++ [.index index]) value state) state)
      = state.graft path (Piece.ofItems piece path items state.world) := by
  have hs : (state.data.at? path).isSome := by simp [h]
  have hb : (.leaf (.array (List.replicate items.length .null)) : Piece W O C T)
      = .gather .array ([] ++ Piece.blanks (positions 0 items.length)) := by
    simp [Piece.gather_blanks, Container.build, positions, Function.comp_def, List.map_const']
  simp only [State.write?_eq hs, hb]
  rw [foldl_items_eq_graft hf hs items 0 [] state.world
    (by simpa [positions, List.range_eq_range'] using Container.admits_array items.length)]
  simp [Piece.ofItems]

end

/-- Completing a value in a slot that holds null grafts the piece of the value. -/
theorem complete_eq_graft (setting : Setting W O C T) (invocation : Invocation W O C T)
    (type : TypeRef) :
    Grafts (complete setting invocation type) (Piece.ofValue setting invocation type) := by
  induction type with
  | named name | nonNullNamed name => exact completeSingle_eq_graft setting invocation _
  | list item ih | nonNullList item ih =>
    intro path value state h
    simp only [complete, Piece.ofValue]
    cases listItems? setting.host value with
    | none => exact completeSingle_eq_graft setting invocation _ path value state h
    | some items => exact items_eq_graft ih items h

/-! ## Objects -/

/-- The steps to the fields of an object. -/
def fieldSteps (children : List (Node (Definition W O C T))) : List Segment :=
  children.map fun child => .key child.key

/-- A field that fails the whole object leaves null in its place. -/
theorem failed_eq_graft {start : State W O C T} {path : Path}
    (hp : (start.data.at? path).isSome) (parts : List (Segment × Piece W O C T))
    (steps : List Segment) (error : FieldError) (world world' : W) :
    ({ start.graft path (.gather .object (parts ++ Piece.blanks steps), world) with
        world := world' }.write path .null).report path error FieldError.Code.fieldResolution
      = start.graft path (Piece.close path parts (some error), world') := by
  have hs : ((start.data.fill path
      (Piece.gather .object (parts ++ Piece.blanks steps)).value).at? path).isSome := by
    simp [Json.at?_fill_self hp]
  rw [State.write_eq (by exact hs)]
  simp only [State.report, State.graft, Json.fill_fill_self hp, Piece.close, Piece.leaf,
    State.mk.injEq, true_and]
  simp only [Piece.gather, List.flatMap_append, Piece.flatMap_blanks (f := Piece.errors) rfl,
    Piece.flatMap_blanks (f := Piece.frames) rfl, Piece.flatMap_blanks (f := Piece.pending) rfl]
  simp

/-- Resolving the first of some fields grafts its piece, unless the field fails the object. -/
theorem resolveFields_cons (setting : Setting W O C T) (frame : Frame W O C T)
    (child : Node (Definition W O C T)) (rest : List (Node (Definition W O C T)))
    (known : Option (Page O)) {state : State W O C T}
    (h : state.data.at? (frame.path ++ [.key child.key]) = some .null) :
    resolveFields setting frame (child :: rest) known state
      = match Piece.fieldPart setting frame child known state.world with
        | (.error error, _, world) =>
          ({ state with world }.write frame.path .null).report frame.path error
            FieldError.Code.fieldResolution
        | (.ok piece, known, world) =>
          resolveFields setting frame rest known
            (state.graft (frame.path ++ [.key child.key]) (piece, world)) := by
  have hs : (state.data.at? (frame.path ++ [.key child.key])).isSome := by simp [h]
  have hreport : ∀ (world : W) (error : FieldError),
      ({ state with world } : State W O C T).report (frame.path ++ [.key child.key]) error
          FieldError.Code.fieldResolution
        = ({ state with world } : State W O C T).graft (frame.path ++ [.key child.key])
          (.failed (frame.path ++ [.key child.key]) error FieldError.Code.fieldResolution, world) :=
    fun world error => by
      rw [State.report_eq]
      exact h
  simp only [resolveFields, Piece.fieldPart]
  cases child.isTypename with
  | true => rw [State.write_eq hs]; rfl
  | false =>
    cases child.definition? with
    | none => exact congrArg (resolveFields setting frame rest known) (hreport _ _)
    | some definition =>
      simp only [Bool.false_eq_true, if_false]
      rcases resolveField setting frame definition.descriptor
        (definition.descriptor.coerceArguments child.arguments setting.vars) known state.world
        with ⟨_ | _, known', world'⟩
      · rename_i error
        rcases hf : failsFrame setting frame error known' world' with ⟨_ | _, known'', world''⟩
        · simp only [hf, Bool.false_eq_true, if_false]
          exact congrArg (resolveFields setting frame rest known'') (hreport _ _)
        · simp only [hf, if_true]
      · exact congrArg (resolveFields setting frame rest known')
          (complete_eq_graft setting _ _ _ _ { state with world := world' } h)

/-- Fields are grafted one after the other; `before` are the parts of those that are done. -/
theorem resolveFields_eq_graft (setting : Setting W O C T) (frame : Frame W O C T)
    {start : State W O C T} (hp : (start.data.at? frame.path).isSome)
    (children : List (Node (Definition W O C T))) (known : Option (Page O))
    (before : List (Segment × Piece W O C T)) (world : W)
    (ha : Container.object.Admits (before.map Prod.fst ++ fieldSteps children)) :
    resolveFields setting frame children known
        (start.graft frame.path
          (.gather .object (before ++ Piece.blanks (fieldSteps children)), world))
      = let (parts, failure, world) := Piece.fieldParts setting frame children known world
        start.graft frame.path (Piece.close frame.path (before ++ parts) failure, world) := by
  induction children generalizing known before world with
  | nil => simp [resolveFields, Piece.fieldParts, Piece.close, fieldSteps, Piece.blanks]
  | cons child rest ih =>
    have hsteps : fieldSteps (child :: rest) = .key child.key :: fieldSteps rest := rfl
    rw [hsteps] at ha ⊢
    rw [resolveFields_cons setting frame child rest known (State.at?_graft_blank hp ha world),
      State.graft_world, Piece.fieldParts]
    rcases Piece.fieldPart setting frame child known world with ⟨_ | piece, known', world'⟩
    · simpa using failed_eq_graft hp before _ _ world world'
    · simp only [State.graft_gather_step hp ha]
      rw [ih known' _ world' (by simpa using ha)]
      simp

/-- The object with a null for each of its fields. -/
theorem placeholders_nil {keys : List String} (h : keys.Nodup) :
    placeholders [] keys = keys.map fun key => (key, .null) := by
  suffices hs : ∀ done : List String, (done ++ keys).Nodup →
      placeholders (done.map fun key => (key, .null)) keys
        = (done ++ keys).map fun key => (key, .null) from hs [] h
  clear h
  induction keys with
  | nil => intro done _; simp [placeholders]
  | cons key rest ih =>
    intro done hnd
    have hkey : key ∉ done := fun hm =>
      (List.nodup_append.1 hnd).2.2 _ hm _ (List.mem_cons_self ..) rfl
    have hput : Entries.put key Json.null (done.map fun key => (key, .null))
        = (done ++ [key]).map fun key => (key, .null) := by
      clear hnd ih
      induction done with
      | nil => rfl
      | cons d done ih =>
        have hd : ¬ d = key := fun e => hkey (by simp [e])
        simp [Entries.put, hd, ih fun hm => hkey (List.mem_cons_of_mem _ hm)]
    have := ih (done ++ [key]) (by simpa using hnd)
    rw [← hput] at this
    simpa [placeholders] using this

/-- An object that gets a null for each of its fields is a graft of blanks. -/
theorem State.write_placeholders {state : State W O C T} {path : Path}
    (hs : (state.data.at? path).isSome) {children : List (Node (Definition W O C T))}
    (hk : (children.map Node.key).Nodup) :
    state.write path (.object (placeholders [] (children.map Node.key)))
      = state.graft path
        (.gather .object ([] ++ Piece.blanks (fieldSteps children)), state.world) := by
  have hb : (.leaf (.object (placeholders [] (children.map Node.key))) : Piece W O C T)
      = .gather .object ([] ++ Piece.blanks (fieldSteps children)) := by
    simp [Piece.gather_blanks, Container.build, placeholders_nil hk, fieldSteps,
      Function.comp_def]
  rw [State.write_eq hs, hb]

/-- Resolving an object grafts the piece of the object, if its slot holds the empty object. -/
theorem resolveFrame_eq_graft (setting : Setting W O C T) (frame : Frame W O C T)
    (hk : ((Piece.included setting frame).map Node.key).Nodup) {state : State W O C T}
    (h : state.data.at? frame.path = some (.object [])) :
    resolveFrame setting frame state
      = state.graft frame.path (Piece.ofFrame setting frame state.world) := by
  have hs : (state.data.at? frame.path).isSome := by simp [h]
  simp only [resolveFrame, Piece.ofFrame, Piece.included] at hk ⊢
  cases hc : frame.node.children? frame.concrete with
  | none =>
    simp [Piece.fieldParts, Piece.close, Piece.gather, Container.build, State.graft,
      Json.fill_self h]
  | some children =>
    rw [hc] at hk
    simp only [h, Option.getD_some] at hk ⊢
    rw [State.write_placeholders hs hk, resolveFields_eq_graft setting frame hs _ none []
      state.world (by simpa [fieldSteps, Function.comp_def] using Container.admits_object hk)]
    simp

/-- An object whose slot is gone is left out. -/
theorem resolveFrame_of_none (setting : Setting W O C T) (frame : Frame W O C T)
    {state : State W O C T} (h : state.data.at? frame.path = none) :
    resolveFrame setting frame state = state := by
  simp only [resolveFrame, h]
  split <;> rfl

end QueryEngine.Execution
