import QueryEngine.Proofs.Execution.Sound

/-!
# Completions

Values get into slots by `complete`, which the fields of an object, the items of a list and the
outcomes of tasks are handed to one after the other. A `Completion` is one such call with the state
that it finds, and `Calls` are those that the next work makes, nested ones included. Whatever is
completed finds null in its slot. What it leaves there is not touched by the completions that come
after it, so it is there when the work is done, unless the object whose fields are resolved becomes
null as a whole (`Calls.finds_null`).
-/

namespace QueryEngine.Execution

open Moment

variable {W O C T : Type}

variable (W O C T) in
/-- A value that is about to be put into its slot. -/
structure Completion where
  invocation : Invocation W O C T
  type : TypeRef
  path : Path
  value : FieldValue O C T
  state : State W O C T

/-- The state after the value is completed. -/
def Completion.run (setting : Setting W O C T) (call : Completion W O C T) : State W O C T :=
  complete setting call.invocation call.type call.path call.value call.state

/-- Completes items, each at its position. -/
def completeItems (setting : Setting W O C T) (invocation : Invocation W O C T) (item : TypeRef)
    (path : Path) (items : List (FieldValue O C T × Nat)) (state : State W O C T) :
    State W O C T :=
  items.foldl (fun state (value, index) =>
    complete setting invocation item (path ++ [.index index]) value state) state

/-- The completion of an item, after those of the items `before`. -/
inductive Completion.Item (setting : Setting W O C T) :
    Completion W O C T → Completion W O C T → Prop
  | intro {call : Completion W O C T} {item : TypeRef} {before after : List (FieldValue O C T)}
    {value : FieldValue O C T} {blank : State W O C T} (ht : call.type.item? = some item)
    (hl : listItems? setting.host call.value = some (before ++ value :: after))
    (hw : call.state.write? call.path
      (.array (List.replicate (before ++ value :: after).length .null)) = some blank) :
    Item setting call
      ⟨call.invocation, item, call.path ++ [.index before.length], value,
        completeItems setting call.invocation item call.path before.zipIdx blank⟩

variable (W O C T) in
/-- What is done about one field of an object: its value is completed, or it is done with, or it
fails the object. -/
inductive Turn where
  | completes (call : Completion W O C T) (known : Option (Page O))
  | passes (state : State W O C T) (known : Option (Page O))
  | fails (state : State W O C T)

/-- What is done about the first of some fields. -/
def turn (setting : Setting W O C T) (frame : Frame W O C T) (child : Node (Definition W O C T))
    (known : Option (Page O)) (state : State W O C T) : Turn W O C T :=
  let path := frame.path ++ [.key child.key]
  if child.isTypename then .passes (state.write path (.string frame.concrete)) known
  else
    match child.definition? with
    | none =>
      .passes (state.report path
        (.new ("cannot resolve field '" ++ child.name ++ "' on '" ++ frame.concrete ++ "'"))
        FieldError.Code.fieldResolution) known
    | some definition =>
      let descriptor := definition.descriptor
      let arguments := descriptor.coerceArguments child.arguments setting.vars
      match resolveField setting frame descriptor arguments known state.world with
      | (.ok value, known, world) =>
        .completes ⟨⟨child, descriptor, arguments⟩, child.type, path, value, { state with world }⟩
          known
      | (.error error, known, world) =>
        match failsFrame setting frame error known world with
        | (true, _, world) =>
          .fails (({ state with world }.write frame.path .null).report frame.path error
            FieldError.Code.fieldResolution)
        | (false, known, world) =>
          .passes ({ state with world }.report path error FieldError.Code.fieldResolution) known

/-- The completions of the values of fields, nested ones left out. -/
inductive FieldCalls (setting : Setting W O C T) (frame : Frame W O C T) :
    List (Node (Definition W O C T)) → Option (Page O) → State W O C T →
      Completion W O C T → Prop
  | now {child : Node (Definition W O C T)} {rest : List (Node (Definition W O C T))}
    {known known' : Option (Page O)} {state : State W O C T} {call : Completion W O C T}
    (ht : turn setting frame child known state = .completes call known') :
    FieldCalls setting frame (child :: rest) known state call
  | next {child : Node (Definition W O C T)} {rest : List (Node (Definition W O C T))}
    {known known' : Option (Page O)} {state : State W O C T} {first call : Completion W O C T}
    (ht : turn setting frame child known state = .completes first known')
    (hc : FieldCalls setting frame rest known' (first.run setting) call) :
    FieldCalls setting frame (child :: rest) known state call
  | pass {child : Node (Definition W O C T)} {rest : List (Node (Definition W O C T))}
    {known known' : Option (Page O)} {state state' : State W O C T} {call : Completion W O C T}
    (ht : turn setting frame child known state = .passes state' known')
    (hc : FieldCalls setting frame rest known' state' call) :
    FieldCalls setting frame (child :: rest) known state call

/-- The completions that the next work makes: of the outcome of a task, unless its slot is gone, of
the values of fields, and of the items of whatever is completed as a list. -/
inductive Calls (setting : Setting W O C T) (m : Moment W O C T) : Completion W O C T → Prop
  | outcome {rest : Moment W O C T} {pending : Pending W O C T} {value : FieldValue O C T}
    (hn : m.next? = some (.outcome pending (.ok value), rest))
    (hs : (m.state.data.at? pending.path).isSome) :
    Calls setting m
      ⟨pending.invocation, pending.type, pending.path, value, rest.state⟩
  | field {rest : Moment W O C T} {frame : Frame W O C T}
    {children : List (Node (Definition W O C T))} {fields : Fields} {call : Completion W O C T}
    (hn : m.next? = some (.object frame, rest))
    (hc : frame.node.children? frame.concrete = some children)
    (hs : m.state.data.at? frame.path = some (.object fields))
    (hf : FieldCalls setting frame (children.filter (·.isIncluded setting.vars)) none
      (rest.state.write frame.path (.object (placeholders fields
        ((children.filter (·.isIncluded setting.vars)).map Node.key)))) call) :
    Calls setting m call
  | item {call inner : Completion W O C T} (h : Calls setting m call)
    (hi : Completion.Item setting call inner) : Calls setting m inner

/-! ## One completion -/

section
variable {setting : Setting W O C T} {invocation : Invocation W O C T} {type item : TypeRef}
  {path slot : Path} {value : FieldValue O C T} {state : State W O C T}

/-- A value that is completed in a slot that holds null changes nothing elsewhere. -/
theorem at?_complete (h : state.data.at? path = some .null) (hs : Path.Apart path slot) :
    (complete setting invocation type path value state).data.at? slot = state.data.at? slot := by
  rw [complete_eq_graft setting invocation type path value state h, State.graft_data,
    Json.at?_fill_of_apart hs]

/-- A list is completed item by item, in an array of nulls. -/
theorem complete_list (ht : type.item? = some item) {items : List (FieldValue O C T)}
    (hl : listItems? setting.host value = some items) {blank : State W O C T}
    (hw : state.write? path (.array (List.replicate items.length .null)) = some blank) :
    complete setting invocation type path value state
      = completeItems setting invocation item path items.zipIdx blank := by
  cases type with
  | named name | nonNullNamed name => cases ht
  | list inner | nonNullList inner =>
    cases ht
    simp only [complete, hl, hw, completeItems]

/-- Slots at distinct positions of one list lie apart. -/
theorem apart_index {i j : Nat} (h : i ≠ j) :
    Path.Apart (path ++ [.index i]) (path ++ [.index j]) := by
  rw [Path.Apart, List.prefix_append_right_inj, List.prefix_append_right_inj]
  simp [h, Ne.symm h]

/-- Items that are completed in slots that hold null change nothing elsewhere. -/
theorem at?_completeItems {items : List (FieldValue O C T × Nat)}
    (hd : (items.map Prod.snd).Nodup)
    (hn : ∀ i ∈ items.map Prod.snd, state.data.at? (path ++ [.index i]) = some .null)
    (hs : ∀ i ∈ items.map Prod.snd, Path.Apart (path ++ [.index i]) slot) :
    (completeItems setting invocation item path items state).data.at? slot
      = state.data.at? slot := by
  induction items generalizing state with
  | nil => rfl
  | cons first rest ih =>
    rw [List.map_cons, List.nodup_cons] at hd
    rw [List.map_cons, List.forall_mem_cons] at hn hs
    have hfirst := hn.1
    refine (ih hd.2 (fun i hi => ?_) hs.2).trans (at?_complete hfirst hs.1)
    have hne : first.2 ≠ i := fun he => hd.1 (he ▸ hi)
    exact (at?_complete hfirst (apart_index hne)).trans (hn.2 i hi)

end

/-! ## Items -/

section
variable {setting : Setting W O C T} {call inner : Completion W O C T}

/-- The slot of an item is a position of the slot of its list. -/
theorem Completion.Item.path_eq (h : Item setting call inner) :
    ∃ i, inner.path = call.path ++ [.index i] := by
  cases h
  exact ⟨_, rfl⟩

/-- After an item come the items behind it. -/
theorem Completion.run_eq_completeItems {item : TypeRef} {before after : List (FieldValue O C T)}
    {value : FieldValue O C T} {blank : State W O C T} (ht : call.type.item? = some item)
    (hl : listItems? setting.host call.value = some (before ++ value :: after))
    (hw : call.state.write? call.path
      (.array (List.replicate (before ++ value :: after).length .null)) = some blank) :
    call.run setting = completeItems setting call.invocation item call.path
      (after.zipIdx (before.length + 1))
      (complete setting call.invocation item (call.path ++ [.index before.length]) value
        (completeItems setting call.invocation item call.path before.zipIdx blank)) := by
  rw [Completion.run, complete_list ht hl hw, List.zipIdx_append, List.zipIdx_cons]
  simp [completeItems]

/-- An item finds null in its slot, and what it leaves there is there when the list is done. -/
theorem Completion.Item.finds_null (h : Item setting call inner)
    (hn : call.state.data.at? call.path = some .null) :
    inner.state.data.at? inner.path = some .null
      ∧ (call.run setting).data.at? inner.path = (inner.run setting).data.at? inner.path := by
  cases h with | @intro item before after value blank ht hl hw =>
  have hexists : (call.state.data.at? call.path).isSome := by simp [hn]
  have hblank : ∀ i < (before ++ value :: after).length,
      blank.data.at? (call.path ++ [.index i]) = some .null := by
    intro i hi
    rw [State.write?_eq hexists] at hw
    obtain rfl := Option.some.inj hw
    rw [State.graft_data, Json.at?_fill_append hexists, Json.at?_cons]
    simp only [Piece.leaf, Json.child?, List.getElem?_replicate, if_pos hi]
    rfl
  have hbefore : before.zipIdx.map Prod.snd = List.range' 0 before.length := by simp
  have hslot : ∀ i, before.length ≤ i → i < (before ++ value :: after).length →
      (completeItems setting call.invocation item call.path before.zipIdx blank).data.at?
        (call.path ++ [.index i]) = some .null := by
    intro i hle hlt
    rw [at?_completeItems]
    · exact hblank i hlt
    · rw [hbefore]
      exact List.nodup_range'
    · intro j hj
      rw [hbefore, List.mem_range'_1] at hj
      exact hblank j (by simp; omega)
    · intro j hj
      rw [hbefore, List.mem_range'_1] at hj
      exact apart_index (by omega)
  have hnull := hslot before.length (Nat.le_refl _) (by simp)
  refine ⟨hnull, ?_⟩
  have hafter : (after.zipIdx (before.length + 1)).map Prod.snd
      = List.range' (before.length + 1) after.length := by simp
  rw [Completion.run_eq_completeItems ht hl hw, at?_completeItems]
  · rfl
  · rw [hafter]
    exact List.nodup_range'
  · intro i hi
    rw [hafter, List.mem_range'_1] at hi
    rw [at?_complete hnull (apart_index (by omega))]
    exact hslot i (by omega) (by simp; omega)
  · intro i hi
    rw [hafter, List.mem_range'_1] at hi
    exact apart_index (by omega)

end

/-! ## Fields -/

section
variable {setting : Setting W O C T} {frame : Frame W O C T} {child : Node (Definition W O C T)}
  {rest : List (Node (Definition W O C T))} {known : Option (Page O)} {state : State W O C T}
  {call : Completion W O C T} {slot : Path}

/-- Fields are resolved in turn. -/
theorem resolveFields_turn :
    resolveFields setting frame (child :: rest) known state
      = match turn setting frame child known state with
        | .completes call known => resolveFields setting frame rest known (call.run setting)
        | .passes state known => resolveFields setting frame rest known state
        | .fails state => state := by
  simp only [resolveFields, turn]
  cases child.isTypename with
  | true => rfl
  | false =>
    cases child.definition? with
    | none => rfl
    | some definition =>
      simp only [Bool.false_eq_true, if_false]
      generalize resolveField setting frame definition.descriptor
        (definition.descriptor.coerceArguments child.arguments setting.vars) known state.world
        = result
      obtain ⟨error | value, known', world'⟩ := result
      · simp only
        generalize failsFrame setting frame error known' world' = failure
        obtain ⟨_ | _, known'', world''⟩ := failure <;> rfl
      · rfl

/-- What is in its place after the turn of a field. -/
inductive Turn.Keeps (setting : Setting W O C T) (frame : Frame W O C T)
    (child : Node (Definition W O C T)) (state : State W O C T) : Turn W O C T → Prop
  | completes {call : Completion W O C T} {known : Option (Page O)}
    (hp : call.path = frame.path ++ [.key child.key])
    (hd : call.state.data = state.data) : Keeps setting frame child state (.completes call known)
  | passes {state' : State W O C T} {known : Option (Page O)}
    (hs : ∀ slot, Path.Apart (frame.path ++ [.key child.key]) slot →
      state'.data.at? slot = state.data.at? slot) :
    Keeps setting frame child state (.passes state' known)
  | fails {state' : State W O C T} (hd : state'.data.at? frame.path = some .null) :
    Keeps setting frame child state (.fails state')

/-- Writing leaves the slots that lie apart as they are. -/
theorem State.at?_write_of_apart {path : Path} (h : Path.Apart path slot) (value : Json) :
    (state.write path value).data.at? slot = state.data.at? slot := by
  have hdata : (state.write path value).data = state.data.fill path value := by
    simp only [State.write, State.write?, Json.fill]
    cases state.data.setAt? path value <;> rfl
  rw [hdata, Json.at?_fill_of_apart h]

/-- The turn of a field, whose slot exists, touches nothing outside of the slot unless the field
fails the object. -/
theorem keeps_turn (setting : Setting W O C T) (known : Option (Page O))
    (hs : (state.data.at? (frame.path ++ [.key child.key])).isSome) :
    (turn setting frame child known state).Keeps setting frame child state := by
  simp only [turn]
  cases child.isTypename with
  | true => exact .passes fun slot hslot => State.at?_write_of_apart hslot _
  | false =>
    cases child.definition? with
    | none => exact .passes fun _ _ => rfl
    | some definition =>
      simp only [Bool.false_eq_true, if_false]
      generalize resolveField setting frame definition.descriptor
        (definition.descriptor.coerceArguments child.arguments setting.vars) known state.world
        = result
      obtain ⟨error | value, known', world'⟩ := result
      · simp only
        generalize failsFrame setting frame error known' world' = failure
        obtain ⟨_ | _, known'', world''⟩ := failure
        · exact .passes fun _ _ => rfl
        · refine .fails ?_
          have hframe : (state.data.at? frame.path).isSome := by
            rw [Json.at?_append] at hs
            exact Option.isSome_of_isSome_bind hs
          have hframe' : (({ state with world := world'' } : State W O C T).data.at?
            frame.path).isSome := hframe
          rw [State.write_eq hframe']
          exact Json.at?_fill_self hframe _
      · exact .completes rfl rfl

/-- Slots at distinct keys of one object lie apart. -/
theorem apart_key {a b : String} {path : Path} (h : a ≠ b) :
    Path.Apart (path ++ [.key a]) (path ++ [.key b]) := by
  rw [Path.Apart, List.prefix_append_right_inj, List.prefix_append_right_inj]
  simp [h, Ne.symm h]

/-- Where the slots of fields hold null, the turn of the first one leaves those of the others so,
unless it fails the object. -/
theorem at?_turn (setting : Setting W O C T) (known : Option (Page O))
    (hk : ((child :: rest).map Node.key).Nodup)
    (hn : ∀ key ∈ (child :: rest).map Node.key,
      state.data.at? (frame.path ++ [.key key]) = some .null) :
    (turn setting frame child known state).Keeps setting frame child state
      ∧ ∀ key ∈ rest.map Node.key,
        match turn setting frame child known state with
        | .completes call _ => (call.run setting).data.at? (frame.path ++ [.key key]) = some .null
        | .passes state' _ => state'.data.at? (frame.path ++ [.key key]) = some .null
        | .fails _ => True := by
  rw [List.map_cons, List.nodup_cons] at hk
  rw [List.map_cons, List.forall_mem_cons] at hn
  have hkeeps := keeps_turn setting known (Option.isSome_iff_exists.2 ⟨_, hn.1⟩)
  refine ⟨hkeeps, fun key hkey => ?_⟩
  have hapart : Path.Apart (frame.path ++ [.key child.key]) (frame.path ++ [.key key]) :=
    apart_key fun he => hk.1 (he ▸ hkey)
  generalize turn setting frame child known state = done at hkeeps
  cases hkeeps with
  | fails hd => trivial
  | passes hslots => exact (hslots _ hapart).trans (hn.2 key hkey)
  | completes hp hd =>
    simp only
    rw [Completion.run, at?_complete (by rw [hd, hp, hn.1]) (by rwa [hp]), hd]
    exact hn.2 key hkey

/-- Where the slots of fields hold null, resolving the fields touches nothing outside of these
slots, unless one of them fails the object. -/
theorem at?_resolveFields {children : List (Node (Definition W O C T))}
    (hk : (children.map Node.key).Nodup)
    (hn : ∀ key ∈ children.map Node.key, state.data.at? (frame.path ++ [.key key]) = some .null)
    (hs : ∀ key ∈ children.map Node.key, Path.Apart (frame.path ++ [.key key]) slot) :
    (resolveFields setting frame children known state).data.at? slot = state.data.at? slot
      ∨ (resolveFields setting frame children known state).data.at? frame.path = some .null := by
  induction children generalizing known state with
  | nil => exact .inl rfl
  | cons child rest ih =>
    have hfirst := hn child.key (List.mem_cons_self ..)
    have hslot := hs child.key (List.mem_cons_self ..)
    obtain ⟨hkeeps, hslots⟩ := at?_turn setting known hk hn
    have hk' := (List.nodup_cons.1 hk).2
    have hs' := fun key hkey => hs key (List.mem_cons_of_mem _ hkey)
    rw [resolveFields_turn]
    generalize turn setting frame child known state = done at hkeeps hslots
    cases hkeeps with
    | fails hd => exact .inr hd
    | passes hstay => exact (ih hk' hslots hs').imp_left fun h => h.trans (hstay slot hslot)
    | @completes call known' hp hd =>
      have hcall : (call.run setting).data.at? slot = state.data.at? slot := by
        rw [Completion.run, at?_complete (by rw [hd, hp, hfirst]) (by rwa [hp]), hd]
      exact (ih hk' hslots hs').imp_left fun h => h.trans hcall

/-- The value of a field finds null in its slot, and what it leaves there is there when all fields
are resolved, unless one of them fails the object. -/
theorem FieldCalls.finds_null {children : List (Node (Definition W O C T))}
    (h : FieldCalls setting frame children known state call)
    (hk : (children.map Node.key).Nodup)
    (hn : ∀ key ∈ children.map Node.key,
      state.data.at? (frame.path ++ [.key key]) = some .null) :
    frame.path <+: call.path ∧ call.state.data.at? call.path = some .null
      ∧ ((resolveFields setting frame children known state).data.at? call.path
            = (call.run setting).data.at? call.path
          ∨ (resolveFields setting frame children known state).data.at? frame.path
            = some .null) := by
  induction h with
  | @now child rest known known' state call ht =>
    have hfirst := hn child.key (List.mem_cons_self ..)
    obtain ⟨hkeeps, hslots⟩ := at?_turn setting known hk hn
    rw [resolveFields_turn]
    rw [ht] at hkeeps hslots ⊢
    cases hkeeps with
    | completes hp hd =>
      refine ⟨hp ▸ List.prefix_append .., by rw [hd, hp, hfirst], ?_⟩
      refine at?_resolveFields (List.nodup_cons.1 hk).2 hslots fun key hkey => ?_
      rw [hp]
      exact apart_key fun he => (List.nodup_cons.1 hk).1 (he ▸ hkey)
  | @next child rest known known' state first call ht hc ih =>
    obtain ⟨-, hslots⟩ := at?_turn setting known hk hn
    rw [resolveFields_turn]
    rw [ht] at hslots ⊢
    exact ih (List.nodup_cons.1 hk).2 hslots
  | @pass child rest known known' state state' call ht hc ih =>
    obtain ⟨-, hslots⟩ := at?_turn setting known hk hn
    rw [resolveFields_turn]
    rw [ht] at hslots ⊢
    exact ih (List.nodup_cons.1 hk).2 hslots

end

/-! ## All of them -/

/-- After an object got its placeholders, the slots of its fields hold null. -/
theorem at?_write_placeholders {state : State W O C T} {path : Path}
    (hs : (state.data.at? path).isSome) {children : List (Node (Definition W O C T))}
    (hk : (children.map Node.key).Nodup) {key : String} (hkey : key ∈ children.map Node.key) :
    (state.write path (.object (placeholders [] (children.map Node.key)))).data.at?
      (path ++ [.key key]) = some .null := by
  have hadmits : Container.object.Admits (fieldSteps children) := by
    simpa [fieldSteps, Function.comp_def] using Container.admits_object hk
  have hstep : (Segment.key key, (.leaf .null : Piece W O C T))
      ∈ [] ++ Piece.blanks (fieldSteps children) := by
    obtain ⟨child, hc, rfl⟩ := List.mem_map.1 hkey
    simp only [Piece.blanks, fieldSteps, List.nil_append, List.map_map, List.mem_map]
    exact ⟨child, hc, rfl⟩
  rw [State.write_placeholders hs hk, State.graft_data, Json.at?_fill_append hs,
    Piece.at?_gather (by simpa using hadmits) hstep]
  rfl

section
variable {setting : Setting W O C T} {root : Node (Definition W O C T)}
  {past : List (Moment W O C T)} {m next : Moment W O C T} {call : Completion W O C T}

/-- The slot lies in a connection that the move makes null because one of its fields fails it. -/
def Nulls (m next : Moment W O C T) (slot : Path) : Prop :=
  ∃ frame, Resolves m frame ∧ frame.path <+: slot
    ∧ (∃ connection, frame.source = .connection connection)
    ∧ next.state.data.at? frame.path = some .null

/-- Where there is work the next moment is the one after it. -/
theorem Move.eq_of_next? (hm : Move setting m next) {work : Work W O C T} {rest : Moment W O C T}
    (hn : m.next? = some (work, rest)) :
    next = { rest with state := work.run setting rest.state } := by
  cases hm with
  | work hwork =>
    obtain ⟨rfl, rfl⟩ := Prod.mk.inj (Option.some.inj (hn.symm.trans hwork))
    rfl
  | drain hnone => simp [hnone] at hn

/-- Whatever is completed finds null in its slot, and what it leaves there is there when the work
is done, unless the slot is one of a connection that becomes null. -/
theorem Calls.finds_null (h : Sound setting root past m) (hk : root.KeysDistinct)
    (hm : Move setting m next) (hc : Calls setting m call) :
    call.state.data.at? call.path = some .null
      ∧ (next.state.data.at? call.path = (call.run setting).data.at? call.path
        ∨ Nulls m next call.path) := by
  induction hc with
  | @outcome rest pending value hn hs =>
    obtain rfl := hm.eq_of_next? hn
    have hdata : rest.state.data.at? pending.path = some .null := by
      rw [data_next hn]
      exact (h.at?_next hn).resolve_left fun hnone => by
        simp [show m.state.data.at? pending.path = none from hnone] at hs
    refine ⟨hdata, .inl ?_⟩
    simp [Work.run, apply, hdata, Completion.run]
  | @field rest frame children fields call hn hchildren hs hf =>
    obtain rfl := hm.eq_of_next? hn
    have hexists : (m.state.data.at? frame.path).isSome := by simp [hs]
    have hempty : m.state.data.at? frame.path = some (.object []) :=
      (h.at?_next hn).resolve_left fun hnone => by
        simp [show m.state.data.at? frame.path = none from hnone] at hs
    obtain rfl : fields = [] := Json.object.inj (Option.some.inj (hs.symm.trans hempty))
    have hnodup : ((children.filter (·.isIncluded setting.vars)).map Node.key).Nodup := by
      simpa [Piece.included, hchildren] using h.keys_next hk hn frame rfl
    obtain ⟨hwithin, hfound, hleft⟩ := hf.finds_null hnodup fun key hkey =>
      at?_write_placeholders (by rw [data_next hn]; exact hexists) hnodup hkey
    have hrun : resolveFrame setting frame rest.state
        = resolveFields setting frame (children.filter (·.isIncluded setting.vars)) none
          (rest.state.write frame.path (.object (placeholders []
            ((children.filter (·.isIncluded setting.vars)).map Node.key)))) := by
      simp only [resolveFrame, hchildren, data_next hn, hs]
    refine ⟨hfound, ?_⟩
    simp only [Work.run, hrun]
    refine hleft.imp_right fun hnull => ?_
    have hdata : rest.state.data.at? frame.path = some (.object []) := by
      rw [data_next hn, hempty]
    have hfails : Piece.fails setting frame rest.state.world := by
      rw [← hrun, resolveFrame_eq_graft setting frame (h.keys_next hk hn frame rfl) hdata,
        State.graft_data, Json.at?_fill_self (by simp [hdata]), Option.some_inj] at hnull
      exact Piece.value_ofFrame_eq_null_iff.1 hnull
    exact ⟨frame, (resolves_iff hn hexists frame).2 rfl, hwithin,
      Piece.connection_of_fails hfails, hnull⟩
  | @item call inner _ hi ih =>
    obtain ⟨hfound, hleft⟩ := ih
    obtain ⟨hinner, hrun⟩ := hi.finds_null hfound
    obtain ⟨i, hpath⟩ := hi.path_eq
    refine ⟨hinner, ?_⟩
    rcases hleft with hsame | hnulls
    · refine .inl ?_
      rw [← hrun, hpath, Json.at?_append, Json.at?_append, hsame]
    · obtain ⟨frame, hr, hp, hrest⟩ := hnulls
      exact .inr ⟨frame, hr, hp.trans (hpath ▸ List.prefix_append ..), hrest⟩

end

end QueryEngine.Execution
