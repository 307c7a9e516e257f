import QueryEngine.Proofs.Execution.Sound

/-!
# JSON that does not fit its field

The slot of a field with a sub-selection is for objects whose fields are resolved, or for lists of
these. JSON that is neither goes into the slot as it is: such a value is a misfit (`misfit?`), and
`Strayed` collects the misfits of an execution with their slots. `Held` says what else such a slot
can hold; every value and every object that an execution completes leaves its slots so
(`holds_ofValue`, `holds_ofFrame`).
-/

namespace QueryEngine

/-- Slots below one slot lie apart if their paths from there do. -/
theorem Path.apart_append_iff {path a b : Path} :
    Path.Apart (path ++ a) (path ++ b) ↔ Path.Apart a b := by
  simp [Path.Apart, List.prefix_append_right_inj]

namespace Execution

variable {W O C T : Type}

/-! ## Misfits -/

/-- The JSON that a field with a sub-selection is answered with, if it does not fit the type of the
slot: an object where the type is a list, a list where it is none and makes no connection, and a
value that is neither object nor list nor null. -/
def misfit? (setting : Setting W O C T) (invocation : Invocation W O C T) (type : TypeRef) :
    FieldValue O C T → Option Json
  | .value .null => none
  | .value (.array items) =>
    if type.item?.isSome || (connection? setting invocation type (.values items)).isSome then none
    else some (.array items)
  | .value (.object fields) => if type.item?.isSome then some (.object fields) else none
  | .value json => some json
  | _ => none

/-- The misfits of a value, with their slots. -/
def strays (setting : Setting W O C T) (invocation : Invocation W O C T) :
    TypeRef → Path → FieldValue O C T → List (Path × Json)
  | .list item, path, value =>
    match listItems? setting.host value with
    | none => (misfit? setting invocation (.list item) value).toList.map (path, ·)
    | some items => items.zipIdx.flatMap fun (value, index) =>
      strays setting invocation item (path ++ [.index index]) value
  | .nonNullList item, path, value =>
    match listItems? setting.host value with
    | none => (misfit? setting invocation (.nonNullList item) value).toList.map (path, ·)
    | some items => items.zipIdx.flatMap fun (value, index) =>
      strays setting invocation item (path ++ [.index index]) value
  | .named name, path, value =>
    (misfit? setting invocation (.named name) value).toList.map (path, ·)
  | .nonNullNamed name, path, value =>
    (misfit? setting invocation (.nonNullNamed name) value).toList.map (path, ·)

/-- The misfits of one field of an object. -/
def fieldStrays (setting : Setting W O C T) (frame : Frame W O C T)
    (child : Node (Definition W O C T)) (known : Option (Page O)) (world : W) :
    List (Path × Json) :=
  match child.definition? with
  | none => []
  | some definition =>
    let descriptor := definition.descriptor
    let arguments := descriptor.coerceArguments child.arguments setting.vars
    match resolveField setting frame descriptor arguments known world with
    | (.ok value, _) =>
      strays setting ⟨child, descriptor, arguments⟩ child.type
        (frame.path ++ [.key child.key]) value
    | (.error _, _) => []

/-- The misfits of the fields of an object, up to one that fails the whole object. -/
def frameStrays (setting : Setting W O C T) (frame : Frame W O C T) :
    List (Node (Definition W O C T)) → Option (Page O) → W → List (Path × Json)
  | [], _, _ => []
  | child :: rest, known, world =>
    fieldStrays setting frame child known world
      ++ match Piece.fieldPart setting frame child known world with
        | (.error _, _, _) => []
        | (.ok _, known, world) => frameStrays setting frame rest known world

/-- The misfits of some work. -/
def Work.strays (setting : Setting W O C T) (world : W) : Work W O C T → List (Path × Json)
  | object frame => frameStrays setting frame (Piece.included setting frame) none world
  | outcome pending (.ok value) =>
    Execution.strays setting pending.invocation pending.type pending.path value
  | outcome _ (.error _) | task _ => []

/-- A misfit was put into the slot at the path. -/
def Strayed (setting : Setting W O C T) (past : List (Moment W O C T)) (path : Path)
    (json : Json) : Prop :=
  ∃ m ∈ past, ∃ work rest, m.next? = some (work, rest)
    ∧ (path, json) ∈ work.strays setting m.state.world

/-! ## What a slot holds -/

/-- An object is the answer of a field: it is in a slot of the field, and the field has a
sub-selection for its type. -/
structure Frame.Answers (setting : Setting W O C T) (node : Node (Definition W O C T))
    (path : Path) (frame : Frame W O C T) : Prop where
  path_eq : frame.path = path
  node_eq : frame.node = node
  bucket : node.hasBucket frame.concrete
  concrete : frame.concrete = frame.source.typeName setting.host

/-- What the slot of a field with a sub-selection holds: null, a list, an object that is queued or
was resolved, or a misfit. -/
inductive Held (setting : Setting W O C T) (past : List (Moment W O C T))
    (works : List (Work W O C T)) (stray : Path → Json → Prop)
    (node : Node (Definition W O C T)) (type : TypeRef) (path : Path) : Json → Prop
  | null : Held setting past works stray node type path .null
  | array {items : List Json} (ht : type.item?.isSome) :
    Held setting past works stray node type path (.array items)
  | queued {frame : Frame W O C T} (hw : .object frame ∈ works)
    (ha : frame.Answers setting node path)
    (ht : type.item? = none ∨ ∃ given, stray path (.object given)) :
    Held setting past works stray node type path (.object [])
  | resolved {frame : Frame W O C T} {value : Json} (hr : Resolved past frame)
    (ha : frame.Answers setting node path)
    (ht : type.item? = none ∨ ∃ given, stray path (.object given)) :
    Held setting past works stray node type path value
  /-- Nothing is done within a misfit. -/
  | raw {value : Json} (hs : stray path value) (hn : ∀ fields, value ≠ .object fields)
    (hw : ∀ work ∈ works, Path.Apart work.path path) :
    Held setting past works stray node type path value

section
variable {setting : Setting W O C T} {past past' : List (Moment W O C T)}
  {works works' : List (Work W O C T)} {stray stray' : Path → Json → Prop}
  {node : Node (Definition W O C T)} {type : TypeRef} {path : Path} {value : Json}

/-- What a slot holds it holds later, if what was resolved stays so, misfits stay, and what is
queued there stays queued. -/
theorem Held.mono (h : Held setting past works stray node type path value)
    (hpast : ∀ frame, Resolved past frame → Resolved past' frame)
    (hstray : ∀ json, stray path json → stray' path json)
    (hqueued : ∀ frame, .object frame ∈ works → frame.path = path → .object frame ∈ works')
    (hapart : (∀ work ∈ works, Path.Apart work.path path) →
      ∀ work ∈ works', Path.Apart work.path path) :
    Held setting past' works' stray' node type path value := by
  have hlist : (type.item? = none ∨ ∃ given, stray path (.object given)) →
      type.item? = none ∨ ∃ given, stray' path (.object given) :=
    Or.imp_right (Exists.imp fun _ hg => hstray _ hg)
  cases h with
  | null => exact .null
  | array ht => exact .array ht
  | queued hw ha ht => exact .queued (hqueued _ hw ha.path_eq) ha (hlist ht)
  | resolved hr ha ht => exact .resolved (hpast _ hr) ha (hlist ht)
  | raw hs hn hw => exact .raw (hstray _ hs) hn (hapart hw)

end

/-! ## Values -/

namespace Piece

/-- Each slot of the field that the piece makes holds what it should. -/
def Holds (setting : Setting W O C T) (stray : Path → Json → Prop)
    (node : Node (Definition W O C T)) (type : TypeRef) (path : Path) (piece : Piece W O C T) :
    Prop :=
  ∀ (indices : List Nat) slot value, type.slot? indices = some slot →
    piece.value.at? (indices.map .index) = some value →
      Held setting [] piece.works stray node slot (path ++ indices.map .index) value

section
variable {setting : Setting W O C T} {stray stray' : Path → Json → Prop}
  {node : Node (Definition W O C T)} {type : TypeRef} {path : Path} {piece : Piece W O C T}

/-- What a piece holds it holds where there may be more misfits. -/
theorem Holds.mono (h : piece.Holds setting stray node type path)
    (hs : ∀ path json, stray path json → stray' path json) :
    piece.Holds setting stray' node type path := by
  intro indices slot value ht hv
  exact (h indices slot value ht hv).mono (fun _ hr => hr) (hs _) (fun _ hw _ => hw) fun hw => hw

/-- A piece without positions, or in a slot that is for no list, is all in one slot. -/
theorem holds_of_held (hi : type.item? = none ∨ ∀ i, piece.value.child? (.index i) = none)
    (h : Held setting [] piece.works stray node type path piece.value) :
    piece.Holds setting stray node type path := by
  intro indices slot value ht hv
  cases indices with
  | nil =>
    cases ht
    obtain rfl : piece.value = value := by simpa using hv
    simpa using h
  | cons i rest =>
    rcases hi with hi | hi
    · simp [TypeRef.slot?, hi] at ht
    · simp [Json.at?_cons, hi] at hv

/-- A null holds whatever slots there are in it, for there is none. -/
theorem holds_of_null (h : piece.value = .null) : piece.Holds setting stray node type path := by
  refine holds_of_held (.inr fun i => ?_) ?_
  · rw [h]
    rfl
  · rw [h]
    exact .null

@[simp] theorem value_ofNull (path : Path) (type : TypeRef) :
    (ofNull path type : Piece W O C T).value = .null := by
  unfold ofNull
  split <;> rfl

variable {invocation : Invocation W O C T}

/-- An object is queued in the slot, or rejected. -/
theorem holds_ofSource (hc : invocation.node.isComposite) (source : Source W O C)
    (ht : type.item? = none ∨ ∃ given, stray path (.object given)) :
    (ofSource setting invocation type path source).Holds setting stray invocation.node type
      path := by
  simp only [ofSource, hc, Bool.not_true, Bool.false_eq_true, if_false]
  split
  · exact holds_of_null rfl
  · rename_i hb
    have ha : Frame.Answers setting invocation.node path
        ⟨path, source, source.typeName setting.host, invocation.node⟩ :=
      ⟨rfl, rfl, by simpa using hb, rfl⟩
    exact holds_of_held (.inr fun i => rfl) (.queued (List.mem_cons_self ..) ha ht)

/-- JSON that does not fit goes into the slot as it is. -/
theorem holds_leaf {json : Json} (hs : stray path json) (hn : ∀ fields, json ≠ .object fields)
    (hi : type.item? = none ∨ ∀ i, json.child? (.index i) = none) :
    (leaf json : Piece W O C T).Holds setting stray node type path :=
  holds_of_held hi (.raw hs hn fun _ hw => by cases hw)

/-- A connection is made where the type is no list. -/
theorem item?_of_connection? {backing : Backing C} {connection : Connection W O C}
    (h : connection? setting invocation type backing = some connection) : type.item? = none := by
  simp only [connection?] at h
  split at h
  · assumption
  · cases h

/-- A value that is not completed item by item leaves its slot as it should. -/
theorem holds_ofSingle (hc : invocation.node.isComposite) {value : FieldValue O C T}
    (h : type.item? = none ∨ listItems? setting.host value = none)
    (hs : ∀ json, misfit? setting invocation type value = some json → stray path json) (world : W) :
    (ofSingle setting invocation type path value world).1.Holds setting stray invocation.node type
      path := by
  cases value with
  | lazy task => exact holds_of_null rfl
  | deferred marker =>
    simp only [ofSingle]
    split
    · exact holds_of_null rfl
    · exact holds_of_null rfl
  | value json =>
    cases json with
    | null => exact holds_of_null (value_ofNull ..)
    | array items =>
      have hitem : type.item? = none := h.resolve_right (by simp [listItems?])
      simp only [ofSingle]
      split
      · exact holds_ofSource hc _ (.inl hitem)
      · rename_i hn
        exact holds_leaf (hs _ (by simp [misfit?, hitem, hn])) (by simp) (.inl hitem)
    | object fields =>
      simp only [ofSingle, hc, if_true]
      refine holds_ofSource hc _ ?_
      cases hitem : type.item? with
      | none => exact .inl rfl
      | some item => exact .inr ⟨fields, hs _ (by simp [misfit?, hitem])⟩
    | bool | number | string => exact holds_leaf (hs _ rfl) (by simp) (.inr fun _ => rfl)
  | object object =>
    simp only [ofSingle]
    split
    · rename_i hitem
      exact holds_ofSource hc _ (.inl (by simpa using hitem))
    · exact holds_of_null rfl
  | collection collection =>
    simp only [ofSingle]
    split
    · rename_i hconn
      exact holds_ofSource hc _ (.inl (item?_of_connection? hconn))
    · exact holds_of_null rfl
  | list items => exact holds_of_null rfl

end

/-! ## Lists -/

section
variable {setting : Setting W O C T} {stray : Path → Json → Prop}
  {node : Node (Definition W O C T)} {type : TypeRef} {path : Path}

/-- What a slot of one part holds it holds beside the other parts. -/
theorem held_gather {c : Container} {parts : List (Segment × Piece W O C T)}
    (hs : c.Admits (parts.map Prod.fst))
    (ht : ∀ part ∈ parts, part.2.Tidy (path ++ [part.1]) False) {part : Segment × Piece W O C T}
    (hp : part ∈ parts) {rest : Path} {value : Json}
    (h : Held setting [] part.2.works stray node type (path ++ part.1 :: rest) value) :
    Held setting [] (gather c parts).works stray node type (path ++ part.1 :: rest) value := by
  refine h.mono (fun _ hr => hr) (fun _ hj => hj)
    (fun frame hw _ => mem_works_gather.2 ⟨part, hp, hw⟩) ?_
  intro hapart work hw
  obtain ⟨other, ho, hw⟩ := mem_works_gather.1 hw
  by_cases hstep : other.1 = part.1
  · obtain rfl := List.inj_on_of_nodup_map hs.nodup ho hp hstep
    exact hapart work hw
  · obtain ⟨tail, he⟩ := (ht other ho).path_of_mem_works hw
    rw [he, List.append_assoc, Path.apart_append_iff]
    exact Path.Apart.cons_iff.2 (.inl hstep)

/-- A list leaves its slots as it should if its items do. -/
theorem holds_list {item : TypeRef} (hi : type.item? = some item)
    {parts : List (Segment × Piece W O C T)}
    (hs : Container.array.Admits (parts.map Prod.fst))
    (ht : ∀ part ∈ parts, part.2.Tidy (path ++ [part.1]) False)
    (hp : ∀ part ∈ parts, part.2.Holds setting stray node item (path ++ [part.1])) :
    (gather .array parts).Holds setting stray node type path := by
  intro indices slot value hslot hv
  cases indices with
  | nil =>
    cases hslot
    obtain rfl : (gather .array parts).value = value := by simpa using hv
    exact .array (by simp [hi])
  | cons i rest =>
    simp only [TypeRef.slot?, hi, Option.bind_some] at hslot
    rw [List.map_cons, Json.at?_cons] at hv
    obtain ⟨inner, hinner, hv⟩ := Option.bind_eq_some_iff.1 hv
    rw [gather, Container.child?_build_iff (by rwa [map_fst_values])] at hinner
    obtain ⟨⟨s, piece⟩, hm, he⟩ := List.mem_map.1 hinner
    cases he
    have hheld := hp _ hm rest slot value hslot hv
    rw [List.append_assoc] at hheld
    exact held_gather hs ht hm hheld

/-- The items of a list make the positions of an array, from the first one on. -/
theorem map_fst_ofItems (make : Path → FieldValue O C T → W → Piece W O C T × W)
    (items : List (FieldValue O C T)) (world : W) :
    Container.array.Admits ((each (fun (value, index) world =>
      let (piece, world) := make (path ++ [.index index]) value world
      ((.index index, piece), world)) items.zipIdx world).1.map Prod.fst) := by
  have hsteps : items.zipIdx.map (fun value => Segment.index value.2)
      = (List.range items.length).map .index := by
    rw [List.range_eq_range', ← List.zipIdx_map_snd, List.map_map]
    rfl
  rw [map_fst_each fun value => .index value.2, hsteps]
  · exact Container.admits_array items.length
  · intro value world
    rfl

end

/-- Every value that is completed leaves the slots of its field as it should. -/
theorem holds_ofValue (setting : Setting W O C T) {invocation : Invocation W O C T}
    (hc : invocation.node.isComposite) (type : TypeRef) (path : Path) (value : FieldValue O C T)
    (world : W) :
    (ofValue setting invocation type path value world).1.Holds setting
      (fun slot json => (slot, json) ∈ strays setting invocation type path value)
      invocation.node type path := by
  have hsingle : ∀ {type : TypeRef} {path : Path} {value : FieldValue O C T} {json : Json},
      misfit? setting invocation type value = some json →
        (path, json) ∈ (misfit? setting invocation type value).toList.map (path, ·) := by
    intro type path value json hm
    simp [hm]
  induction type generalizing path value world with
  | named name | nonNullNamed name => exact holds_ofSingle hc (.inl rfl) (fun _ => hsingle) world
  | list item ih | nonNullList item ih =>
    simp only [ofValue, strays]
    cases hl : listItems? setting.host value with
    | none => exact holds_ofSingle hc (.inr hl) (fun _ => hsingle) world
    | some items =>
      refine holds_list rfl (map_fst_ofItems _ items world) ?_ ?_
      · intro part hp
        obtain ⟨item, -, world, rfl⟩ := mem_each hp
        exact (fits_ofValue ..).tidy
      · intro part hp
        obtain ⟨⟨value, index⟩, hm, world, rfl⟩ := mem_each hp
        exact (ih _ value world).mono fun slot json hj =>
          List.mem_flatMap.2 ⟨(value, index), hm, hj⟩

/-! ## Objects -/

section
variable {setting : Setting W O C T} {frame : Frame W O C T}

/-- A field with a sub-selection leaves its slots as it should. -/
theorem holds_fieldPart {child : Node (Definition W O C T)} (hc : child.isComposite)
    (hname : child.isTypename = false) {known : Option (Page O)} {world : W}
    {piece : Piece W O C T} {rest : Option (Page O) × W}
    (h : fieldPart setting frame child known world = (.ok piece, rest)) :
    piece.Holds setting
      (fun slot json => (slot, json) ∈ fieldStrays setting frame child known world) child child.type
      (frame.path ++ [.key child.key]) := by
  simp only [fieldPart, hname, Bool.false_eq_true, if_false] at h
  simp only [fieldStrays]
  cases hdef : child.definition? with
  | none =>
    rw [hdef] at h
    cases h
    exact holds_of_null rfl
  | some definition =>
    simp only [hdef] at h
    rcases hr : resolveField setting frame definition.descriptor
      (definition.descriptor.coerceArguments child.arguments setting.vars) known world
      with ⟨error | value, known', world'⟩
    · simp only [hr] at h
      split at h
      · cases h
      · cases h
        exact holds_of_null rfl
    · simp only [hr] at h ⊢
      cases h
      have hc : (Invocation.mk child definition.descriptor
        (definition.descriptor.coerceArguments child.arguments setting.vars)).node.isComposite := hc
      exact holds_ofValue setting hc _ _ _ _

/-- Each field with a sub-selection leaves its slots as it should. -/
theorem holds_of_mem_fieldParts {children : List (Node (Definition W O C T))}
    {known : Option (Page O)} {world : W} {part : Segment × Piece W O C T}
    (h : part ∈ (fieldParts setting frame children known world).1) :
    ∃ child ∈ children, part.1 = .key child.key ∧ (child.isComposite → child.isTypename = false →
      part.2.Holds setting
        (fun slot json => (slot, json) ∈ frameStrays setting frame children known world) child
        child.type (frame.path ++ [part.1])) := by
  induction children generalizing known world with
  | nil => cases h
  | cons child others ih =>
    unfold fieldParts at h
    unfold frameStrays
    rcases hf : fieldPart setting frame child known world with ⟨_ | piece, known', world'⟩
    · simp [hf] at h
    · simp only [hf] at h ⊢
      rcases List.mem_cons.1 h with rfl | h
      · refine ⟨child, List.mem_cons_self .., rfl, fun hc hname => ?_⟩
        exact (holds_fieldPart hc hname hf).mono fun slot json => List.mem_append_left _
      · obtain ⟨other, ho, hs, hp⟩ := ih h
        refine ⟨other, List.mem_cons_of_mem _ ho, hs, fun hc hname => ?_⟩
        exact (hp hc hname).mono fun slot json => List.mem_append_right _

/-- An object leaves the slots of its fields as it should. -/
theorem holds_ofFrame (hk : ((included setting frame).map Node.key).Nodup) {world : W}
    {child : Node (Definition W O C T)} (hm : child ∈ included setting frame)
    (hc : child.isComposite) (hname : child.isTypename = false) {indices : List Nat}
    {slot : TypeRef} {value : Json} (ht : child.type.slot? indices = some slot)
    (hv : (ofFrame setting frame world).1.value.at? (.key child.key :: indices.map .index)
      = some value) :
    Held setting [] (ofFrame setting frame world).1.works
      (fun slot json => (slot, json) ∈ (Work.object frame).strays setting world) child slot
      (frame.path ++ .key child.key :: indices.map .index) value := by
  have ha := admits_fieldParts setting frame hk none world
  have htidy : ∀ part ∈ (fieldParts setting frame (included setting frame) none world).1,
      part.2.Tidy (frame.path ++ [part.1]) False := by
    intro part hp
    obtain ⟨child, -, -, hf⟩ := fits_of_mem_fieldParts hp
    exact hf.tidy
  have hworks : (ofFrame setting frame world).1.works
      = (gather .object (fieldParts setting frame (included setting frame) none world).1).works :=
    works_close ..
  rw [hworks]
  simp only [ofFrame] at hv
  cases hf : (fieldParts setting frame (included setting frame) none world).2.1 with
  | some error => simp [hf, close, Json.at?_cons] at hv
  | none =>
    simp only [hf, close] at hv
    rw [Json.at?_cons] at hv
    obtain ⟨inner, hinner, hv⟩ := Option.bind_eq_some_iff.1 hv
    rw [gather, Container.child?_build_iff (by rwa [map_fst_values])] at hinner
    obtain ⟨⟨s, piece⟩, hp, he⟩ := List.mem_map.1 hinner
    cases he
    obtain ⟨other, ho, hs, hholds⟩ := holds_of_mem_fieldParts hp
    obtain rfl : other = child := by
      have hkey : child.key = other.key := by simpa using hs
      exact List.inj_on_of_nodup_map hk ho hm hkey.symm
    have hheld := hholds hc hname indices slot value ht hv
    rw [List.append_assoc] at hheld
    exact held_gather ha htidy hp hheld

end

end Piece

end Execution

end QueryEngine
