import QueryEngine.Proofs.Execution.Collapse

/-!
# Slots that are filled

Once an object is resolved, the slot of each of its fields holds what completing the field's value
contributes, and of the open work only what that contribution leaves can reach the slot (`Holds`).
So a slot shows its value from then on (`Shows`): a scalar stays, a list stays an array of as many
items, each in a slot that shows it, and an object waits in its slot until it is resolved, if the
field allows it at all.
-/

namespace QueryEngine

namespace Json

/-- A value that can have no parts. -/
def IsScalar : Json → Prop
  | .array _ | .object _ => False
  | .null | .bool _ | .number _ | .string _ => True

/-- From outside a scalar looks like nothing but itself. -/
theorem eq_of_top_eq {value scalar : Json} (hs : scalar.IsScalar)
    (h : value.top = scalar.top) : value = scalar := by
  cases scalar <;> cases value <;> simp_all [top, IsScalar]

end Json

namespace Execution

open Moment

variable {W O C T : Type}

/-! ## Slots that no work reaches -/

/-- Nothing that is open fills the slot, or one around it. -/
def Rests (m : Moment W O C T) (slot : Path) : Prop :=
  ∀ work ∈ m.works, ¬ work.path <+: slot

section
variable {setting : Setting W O C T} {root : Node (Definition W O C T)}
  {past : List (Moment W O C T)} {m next rest : Moment W O C T} {slot : Path}
  {frame : Frame W O C T}

/-- A slot that rests still does after a move, and looks the same from outside. -/
theorem Rests.effect (h : Rests m slot) (he : Effect setting m next) :
    Rests next slot ∧ (next.state.data.at? slot).map Json.top
      = (m.state.data.at? slot).map Json.top := by
  cases he with
  | skip hn hd =>
    exact ⟨fun work hw => h work (mem_works_of_next hn hw), by rw [data_next hn]⟩
  | @graft work rest hn hd =>
    have hwork := h work (mem_works_next hn)
    constructor
    · intro other ho hp
      rcases List.mem_append.1 ((works_graft ..).mem_iff.1 ho) with ho | ho
      · exact h other (mem_works_of_next hn ho) hp
      · obtain ⟨tail, he, -⟩ := Work.path_of_mem_works ho
        exact hwork ((List.prefix_append ..).trans (he ▸ hp))
    · rw [graft_state, State.graft_data, data_next hn]
      by_cases habove : slot <+: work.path
      · obtain ⟨tail, htail⟩ := habove
        have hne : tail ≠ [] := by
          rintro rfl
          exact hwork ⟨[], by simpa using htail.symm⟩
        rw [← htail, Json.at?_fill_above, Option.map_map]
        exact congrArg (Option.map · _) (funext fun value => Json.top_fill hne _)
      · rw [Json.at?_fill_of_apart ⟨hwork, habove⟩]
  | @drain fuel outcomes after hn hp hs hd =>
    refine ⟨fun work hw => ?_, rfl⟩
    have hpaths := map_works_drained (f := Work.path) (fun _ _ => rfl) hn (length_outcomes hd) after
    obtain ⟨other, ho, he⟩ := List.mem_map.1 (hpaths ▸ List.mem_map_of_mem hw)
    exact he ▸ h other ho

/-- An object whose slot exists waits there for one more move, or is resolved. -/
theorem Sound.object_move (h : Sound setting root past m) (hk : root.KeysDistinct)
    (hm : Move setting m next) (hw : .object frame ∈ m.works)
    (hs : (m.state.data.at? frame.path).isSome) :
    Resolves m frame ∨ .object frame ∈ next.works
      ∧ (next.state.data.at? frame.path).isSome := by
  cases h.effect hk hm with
  | skip hn hd =>
    rw [works_next hn] at hw
    rcases List.mem_cons.1 hw with rfl | hw
    · have hd : m.state.data.at? frame.path = none := hd
      simp [hd] at hs
    · exact .inr ⟨hw, by rwa [data_next hn]⟩
  | @graft work rest hn hd =>
    have hexists : (m.state.data.at? work.path).isSome := by simp [hd]
    have hw' := hw
    rw [works_next hn] at hw'
    rcases List.mem_cons.1 hw' with rfl | hw'
    · exact .inl ((resolves_iff hn hexists frame).2 rfl)
    · have hapart : Path.Apart work.path frame.path := h.apart_work hn hexists hw'
      refine .inr ⟨(works_graft ..).mem_iff.2 (List.mem_append_left _ hw'), ?_⟩
      rwa [graft_state, State.graft_data, data_next hn, Json.at?_fill_of_apart hapart]
  | drain hn =>
    rw [works_of_next?_eq_none hn] at hw
    obtain ⟨pending, -, he⟩ := List.mem_map.1 hw
    cases he

end

section
variable {setting : Setting W O C T} {tree : SelectionTree (Definition W O C T)} {root : O}
  {world : W} {past since : List (Moment W O C T)} {m last : Moment W O C T} {slot : Path}

/-- A slot that rests looks the same from outside at all later moments. -/
theorem Reaches.rests (hk : tree.root.KeysDistinct)
    (hr : Reaches setting (.start root tree world) past m) (h : Rests m slot)
    (hl : Reaches setting m since last) :
    Rests last slot ∧ (last.state.data.at? slot).map Json.top
      = (m.state.data.at? slot).map Json.top := by
  induction hl with
  | start => exact ⟨h, rfl⟩
  | move hl hm ih =>
    obtain ⟨hrests, htop⟩ := ih.1.effect (((hr.trans hl).sound hk).effect hk hm)
    exact ⟨hrests, htop.trans ih.2⟩

/-- An object whose slot exists waits there until it is resolved. -/
theorem Reaches.object_waits (hk : tree.root.KeysDistinct)
    (hr : Reaches setting (.start root tree world) past m) {frame : Frame W O C T}
    (hw : .object frame ∈ m.works) (hs : (m.state.data.at? frame.path).isSome)
    (hl : Reaches setting m since last) :
    Resolved since frame ∨ .object frame ∈ last.works
      ∧ (last.state.data.at? frame.path).isSome := by
  induction hl with
  | start => exact .inr ⟨hw, hs⟩
  | move hl hm ih =>
    rcases ih with hresolved | ⟨hw, hs⟩
    · exact .inl hresolved.cons
    · refine (((hr.trans hl).sound hk).object_move hk hm hw hs).imp_left fun hres => ?_
      exact resolved_cons.2 (.inl hres)

end

/-! ## What a slot holds -/

/-- The piece is in the slot: its value, and its work, which is all that can reach the slot. -/
structure Holds (m : Moment W O C T) (slot : Path) (piece : Piece W O C T) : Prop where
  data : m.state.data.at? slot = some piece.value
  works : ∀ work ∈ piece.works, work ∈ m.works
  only : ∀ work ∈ m.works, ∀ rest, work.path <+: slot ++ rest → work ∈ piece.works

section
variable {setting : Setting W O C T} {root : Node (Definition W O C T)}
  {past : List (Moment W O C T)} {m rest : Moment W O C T} {slot : Path}

/-- Grafting a piece puts it in the slot. -/
theorem Sound.holds_graft (h : Sound setting root past m) {work : Work W O C T}
    (hn : m.next? = some (work, rest)) (hs : (m.state.data.at? work.path).isSome)
    (result : Piece W O C T × W) : Holds (rest.graft work.path result) work.path result.1 where
  data := by
    rw [graft_state, State.graft_data]
    exact Json.at?_fill_self (by rwa [data_next hn]) _
  works other ho := (works_graft ..).mem_iff.2 (List.mem_append_right _ ho)
  only other ho tail hp := by
    rcases List.mem_append.1 ((works_graft ..).mem_iff.1 ho) with ho | ho
    · exact absurd hp ((h.apart_work hn hs ho).append_left tail).2
    · exact ho

/-- The parts of a piece are in their own slots. -/
theorem Holds.part {c : Container} {parts : List (Segment × Piece W O C T)}
    (h : Holds m slot (Piece.gather c parts)) (ha : c.Admits (parts.map Prod.fst))
    (ht : ∀ part ∈ parts, part.2.Tidy (slot ++ [part.1]) False) {part : Segment × Piece W O C T}
    (hp : part ∈ parts) : Holds m (slot ++ [part.1]) part.2 where
  data := by
    rw [Json.at?_append_of_eq h.data, Piece.at?_gather ha hp]
    exact Json.at?_nil _
  works work hw := h.works work (Piece.mem_works_gather.2 ⟨part, hp, hw⟩)
  only work hw tail hprefix := by
    rw [List.append_assoc] at hprefix
    obtain ⟨other, ho, hwork⟩ := Piece.mem_works_gather.1 (h.only work hw _ hprefix)
    obtain ⟨inner, he⟩ := (ht other ho).path_of_mem_works hwork
    rw [he, List.append_assoc, List.prefix_append_right_inj, List.singleton_append,
      List.singleton_append, List.cons_prefix_cons] at hprefix
    obtain rfl := List.inj_on_of_nodup_map ha.nodup ho hp hprefix.1
    exact hwork

end

/-! ## Values in their slots -/

/-- The slot was filled by completing the value: at some moment it held what that contributes. -/
def Filled (setting : Setting W O C T) (past : List (Moment W O C T)) (slot : Path)
    (value : FieldValue O C T) : Prop :=
  ∃ m ∈ past, ∃ invocation type world,
    Holds m slot (Piece.ofValue setting invocation type slot value world).1

/-- What is in the slot comes from the value: a scalar is still there, and for an object the field
was refused, or the object waits in the slot or was resolved there. -/
structure Shows (setting : Setting W O C T) (past : List (Moment W O C T)) (m : Moment W O C T)
    (slot : Path) (value : FieldValue O C T) : Prop where
  filled : Filled setting (m :: past) slot value
  scalar : ∀ json, value = .value json → json.IsScalar → m.state.data.at? slot = some json
  object : ∀ object, value = .object object → m.state.data.at? slot = some .null
    ∨ ∃ frame : Frame W O C T, frame.path = slot ∧ frame.source = .object object
      ∧ (.object frame ∈ m.works ∨ Resolved past frame)

section
variable {setting : Setting W O C T} {invocation : Invocation W O C T} {type : TypeRef}
  {path : Path} {world : W} {m : Moment W O C T}

/-- A value that is no list is not completed item by item. -/
theorem Piece.ofValue_of_none {value : FieldValue O C T}
    (h : listItems? setting.host value = none) :
    ofValue setting invocation type path value world
      = ofSingle setting invocation type path value world := by
  cases type <;> simp [ofValue, h]

/-- A scalar is its own piece, or null is an error. -/
theorem Piece.ofValue_scalar (setting : Setting W O C T) (invocation : Invocation W O C T)
    (type : TypeRef) (path : Path) (world : W) {json : Json} (hs : json.IsScalar) :
    (ofValue setting invocation type path (.value json) world).1.value = json
      ∧ (ofValue setting invocation type path (.value json) world).1.works = [] := by
  cases json with
  | null =>
    rw [ofValue_of_none rfl]
    simp only [ofSingle, ofNull]
    split <;> exact ⟨rfl, rfl⟩
  | bool | number | string =>
    rw [ofValue_of_none rfl]
    exact ⟨rfl, rfl⟩
  | array | object => cases hs

/-- An object is refused, or it is queued for the slot. -/
theorem Piece.ofValue_object (setting : Setting W O C T) (invocation : Invocation W O C T)
    (type : TypeRef) (path : Path) (world : W) (object : Object O) :
    ((ofValue setting invocation type path (.object object) world).1.value = .null
        ∧ (ofValue setting invocation type path (.object object) world).1.works = [])
      ∨ ∃ frame : Frame W O C T, frame.path = path ∧ frame.source = .object object ∧ .object frame
        ∈ (ofValue setting invocation type path (.object object) world).1.works := by
  rw [ofValue_of_none rfl]
  simp only [ofSingle]
  split
  · simp only [ofSource]
    split
    · exact .inl ⟨rfl, rfl⟩
    · split
      · exact .inl ⟨rfl, rfl⟩
      · exact .inr ⟨_, rfl, rfl, List.mem_append_left _ (List.mem_singleton.2 rfl)⟩
  · exact .inl ⟨rfl, rfl⟩

/-- A list for a slot of a list type is completed item by item. -/
theorem Piece.ofValue_list {item : TypeRef} (ht : type.item? = some item)
    (values : List (FieldValue O C T)) :
    ofValue setting invocation type path (.list values) world
      = ofItems (ofValue setting invocation item) path values world := by
  cases type <;> cases ht <;> rfl

/-- The items of a completed list are its parts, each in its own slot. -/
theorem Piece.tidy_items (setting : Setting W O C T) (invocation : Invocation W O C T)
    (item : TypeRef) (path : Path) (values : List (FieldValue O C T)) (world : W) :
    ∃ parts, (ofItems (ofValue setting invocation item) path values world).1 = gather .array parts
      ∧ parts.length = values.length ∧ Container.array.Admits (parts.map Prod.fst)
      ∧ (∀ part ∈ parts, part.2.Tidy (path ++ [part.1]) False)
      ∧ ∀ i value, values[i]? = some value → ∃ world',
        (.index i, (ofValue setting invocation item (path ++ [.index i]) value world').1)
          ∈ parts := by
  have hsteps := map_fst_items (ofValue setting invocation item) path values world
  refine ⟨_, rfl, by simpa using congrArg List.length hsteps,
    hsteps ▸ Container.admits_array values.length, ?_, ?_⟩
  · intro part hp
    obtain ⟨⟨value, index⟩, -, world, rfl⟩ := mem_each hp
    exact (fits_ofValue ..).tidy
  · intro i value hv
    have hmem : (value, i) ∈ values.zipIdx := List.mk_mem_zipIdx_iff_getElem?.2 hv
    exact exists_mem_each hmem world

/-- Right after a list was completed, its slot holds an array of as many items. No work reaches
the slot itself, and the items are in their own slots. -/
theorem Holds.list {item : TypeRef} (ht : type.item? = some item)
    {values : List (FieldValue O C T)}
    (h : Holds m path (Piece.ofValue setting invocation type path (.list values) world).1) :
    (∃ items, m.state.data.at? path = some (.array items) ∧ items.length = values.length)
      ∧ Rests m path
      ∧ ∀ i value, values[i]? = some value → ∃ world', Holds m (path ++ [.index i])
        (Piece.ofValue setting invocation item (path ++ [.index i]) value world').1 := by
  rw [Piece.ofValue_list ht] at h
  obtain ⟨parts, he, hlength, hadmits, htidy, hitems⟩ :=
    Piece.tidy_items setting invocation item path values world
  rw [he] at h
  refine ⟨⟨_, h.data, by simpa using hlength⟩, ?_, ?_⟩
  · intro work hw hp
    have hmark := Piece.mark_mem_marks (h.only work hw [] (by simpa using hp))
    obtain ⟨tail, hne, ht, -⟩ := Piece.holds_gather hadmits htidy hmark
    rw [Work.mark_fst] at ht
    rw [ht] at hp
    exact hne (List.append_right_eq_self.1 (hp.eq_of_length_le (by simp)))
  · intro i value hv
    obtain ⟨world', hpart⟩ := hitems i value hv
    exact ⟨world', h.part hadmits htidy hpart⟩

end

section
variable {setting : Setting W O C T} {tree : SelectionTree (Definition W O C T)} {root : O}
  {world : W} {past since : List (Moment W O C T)} {m last : Moment W O C T} {slot : Path}
  {invocation : Invocation W O C T} {type : TypeRef} {after : W}

/-- A slot that holds a scalar and has no work holds it at all later moments. -/
theorem Reaches.scalar_stays (hk : tree.root.KeysDistinct)
    (hr : Reaches setting (.start root tree world) past m) (hl : Reaches setting m since last)
    {piece : Piece W O C T} (h : Holds m slot piece) (hs : piece.value.IsScalar)
    (hworks : piece.works = []) : last.state.data.at? slot = some piece.value := by
  have hrests : Rests m slot := by
    intro work hw hp
    have hwork := h.only work hw [] (by simpa using hp)
    simp [hworks] at hwork
  obtain ⟨-, htop⟩ := hr.rests hk hrests hl
  rw [h.data] at htop
  obtain ⟨value, hv, htop⟩ := Option.map_eq_some_iff.1 htop
  rw [hv, Json.eq_of_top_eq hs htop]

/-- The moment from which others are reached is the first one passed, or the one reached. -/
theorem Reaches.mem_start {start : Moment W O C T} (h : Reaches setting start past m) :
    start ∈ m :: past := by
  induction h with
  | start => exact List.mem_cons_self ..
  | move _ _ ih => exact List.mem_cons_of_mem _ ih

/-- A slot that was filled shows its value at all later moments. -/
theorem Reaches.shows (hk : tree.root.KeysDistinct)
    (hr : Reaches setting (.start root tree world) past m) (hl : Reaches setting m since last)
    {value : FieldValue O C T}
    (h : Holds m slot (Piece.ofValue setting invocation type slot value after).1) :
    Shows setting (since ++ past) last slot value where
  filled := ⟨m, List.mem_append_left past hl.mem_start, invocation, type, after, h⟩
  scalar json hv hs := by
    subst hv
    obtain ⟨hvalue, hworks⟩ := Piece.ofValue_scalar setting invocation type slot after hs
    rw [hr.scalar_stays hk hl h (by rwa [hvalue]) hworks, hvalue]
  object object hv := by
    subst hv
    rcases Piece.ofValue_object setting invocation type slot after object with
      ⟨hvalue, hworks⟩ | ⟨frame, hp, hs, hw⟩
    · left
      rw [hr.scalar_stays hk hl h (by rw [hvalue]; trivial) hworks, hvalue]
    · refine .inr ⟨frame, hp, hs, ?_⟩
      have hslot : (m.state.data.at? frame.path).isSome := by
        rw [hp, h.data]
        rfl
      rcases hr.object_waits hk (h.works _ hw) hslot hl with hresolved | ⟨hw, -⟩
      · exact .inr (hresolved.imp fun moment hm => ⟨List.mem_append_left _ hm.1, hm.2⟩)
      · exact .inl hw

/-- A slot of a list type that was filled with a list holds an array of as many items at all later
moments. -/
theorem Reaches.list_stays (hk : tree.root.KeysDistinct)
    (hr : Reaches setting (.start root tree world) past m) (hl : Reaches setting m since last)
    {item : TypeRef} (ht : type.item? = some item) {values : List (FieldValue O C T)}
    (h : Holds m slot (Piece.ofValue setting invocation type slot (.list values) after).1) :
    ∃ items, last.state.data.at? slot = some (.array items)
      ∧ items.length = values.length := by
  obtain ⟨⟨items, hitems, hlength⟩, hrests, -⟩ := h.list ht
  obtain ⟨-, htop⟩ := hr.rests hk hrests hl
  rw [hitems] at htop
  obtain ⟨value, hv, htop⟩ := Option.map_eq_some_iff.1 htop
  obtain ⟨others, rfl, hothers⟩ := Json.top_eq_array htop
  exact ⟨others, hv, hothers.trans hlength⟩

end

/-! ## Fields -/

/-- The object is resolved now, and a field of it with this outcome, after fields none of which
fails the object. -/
def Yields (setting : Setting W O C T) (m : Moment W O C T) (frame : Frame W O C T)
    (child : Node (Definition W O C T)) (outcome : Outcome O C T) : Prop :=
  Resolves m frame ∧ ∃ before after known world,
    Piece.included setting frame = before ++ child :: after
      ∧ Piece.passed setting frame before none m.state.world = some (known, world)
      ∧ child.isTypename = false ∧ ∃ definition, child.definition? = some definition
      ∧ (resolveField setting frame definition.descriptor
        (definition.descriptor.coerceArguments child.arguments setting.vars) known world).1
          = outcome

namespace Piece

section
variable {setting : Setting W O C T} {frame : Frame W O C T}
  {child : Node (Definition W O C T)} {known known' : Option (Page O)} {world world' : W}
  {before children : List (Node (Definition W O C T))} {piece : Piece W O C T}

/-- The part of a field that is resolved after fields none of which fails the object. -/
theorem mem_fieldParts
    (hpassed : passed setting frame before known world = some (known', world'))
    (hchild : (fieldPart setting frame child known' world').1 = .ok piece)
    (after : List (Node (Definition W O C T))) :
    (.key child.key, piece)
      ∈ (fieldParts setting frame (before ++ child :: after) known world).1 := by
  induction before generalizing known world with
  | nil =>
    cases hpassed
    simp only [List.nil_append, fieldParts]
    rcases hf : fieldPart setting frame child known' world' with ⟨_ | made, known'', world''⟩
    · rw [hf] at hchild
      cases hchild
    · rw [hf] at hchild
      cases hchild
      exact List.mem_cons_self ..
  | cons first before ih =>
    simp only [passed] at hpassed
    simp only [List.cons_append, fieldParts]
    rcases hf : fieldPart setting frame first known world with ⟨_ | made, known'', world''⟩
    · simp [hf] at hpassed
    · rw [hf] at hpassed
      exact List.mem_cons_of_mem _ (ih hpassed)

/-- If no field fails the object, each of them is resolved. -/
theorem exists_passed_of_none
    (h : (fieldParts setting frame children known world).2.1 = none) (hc : child ∈ children) :
    ∃ before after known' world', children = before ++ child :: after
      ∧ passed setting frame before known world = some (known', world')
      ∧ ∃ piece, (fieldPart setting frame child known' world').1 = .ok piece := by
  induction children generalizing known world with
  | nil => cases hc
  | cons first others ih =>
    simp only [fieldParts] at h
    rcases hf : fieldPart setting frame first known world with ⟨_ | made, known', world'⟩
    · simp [hf] at h
    · rw [hf] at h
      rcases List.mem_cons.1 hc with rfl | hc
      · exact ⟨[], others, known, world, rfl, rfl, made, by rw [hf]⟩
      · obtain ⟨before, after, known'', world'', rfl, hp, hchild⟩ := ih h hc
        exact ⟨first :: before, after, known'', world'', rfl, by simp [passed, hf, hp], hchild⟩

/-- A field that has a value completes it. -/
theorem fst_fieldPart_of_ok {definition : Definition W O C T} {value : FieldValue O C T}
    (ht : child.isTypename = false) (hd : child.definition? = some definition)
    (h : (resolveField setting frame definition.descriptor
      (definition.descriptor.coerceArguments child.arguments setting.vars) known world).1
        = .ok value) :
    ∃ invocation after, (fieldPart setting frame child known world).1
      = .ok (ofValue setting invocation child.type (frame.path ++ [.key child.key]) value
        after).1 := by
  simp only [fieldPart, ht, hd]
  generalize resolveField setting frame definition.descriptor
    (definition.descriptor.coerceArguments child.arguments setting.vars) known world = answer at h
  obtain ⟨outcome, known', world'⟩ := answer
  cases h
  exact ⟨_, _, rfl⟩

end

end Piece

section
variable {setting : Setting W O C T} {node : Node (Definition W O C T)}
  {past : List (Moment W O C T)} {m next : Moment W O C T} {frame : Frame W O C T}
  {child : Node (Definition W O C T)}

/-- Unless a field fails the object, each of its fields has an outcome. -/
theorem exists_yields (hr : Resolves m frame)
    (hf : Piece.fails setting frame m.state.world = false)
    (hc : child ∈ Piece.included setting frame) (ht : child.isTypename = false)
    {definition : Definition W O C T} (hd : child.definition? = some definition) :
    ∃ outcome, Yields setting m frame child outcome := by
  have hnone : (Piece.fieldParts setting frame (Piece.included setting frame) none
      m.state.world).2.1 = none := by simpa [Piece.fails] using hf
  obtain ⟨before, after, known, world, hi, hp, -⟩ := Piece.exists_passed_of_none hnone hc
  exact ⟨_, hr, before, after, known, world, hi, hp, ht, definition, hd, rfl⟩

/-- Right after an object was resolved that no field failed, the values of its fields are in their
slots. -/
theorem Sound.holds_field (h : Sound setting node past m) (hk : node.KeysDistinct)
    (hm : Move setting m next) (hf : Piece.fails setting frame m.state.world = false)
    {value : FieldValue O C T} (hy : Yields setting m frame child (.ok value)) :
    ∃ invocation world, Holds next (frame.path ++ [.key child.key])
      (Piece.ofValue setting invocation child.type (frame.path ++ [.key child.key]) value
        world).1 := by
  obtain ⟨⟨⟨rest, hn⟩, hs⟩, before, after, known, world, hi, hp, ht, definition, hd, hv⟩ := hy
  have hkeys := h.keys_next hk hn frame rfl
  obtain ⟨invocation, last, hpart⟩ := Piece.fst_fieldPart_of_ok ht hd hv
  have hmem := Piece.mem_fieldParts hp hpart after
  rw [← hi] at hmem
  have hpiece : (Piece.ofFrame setting frame m.state.world).1
      = .gather .object (Piece.fieldParts setting frame (Piece.included setting frame) none
        m.state.world).1 := by
    have hnone : (Piece.fieldParts setting frame (Piece.included setting frame) none
        m.state.world).2.1 = none := by simpa [Piece.fails] using hf
    simp only [Piece.ofFrame, hnone, Piece.close]
  have hholds := h.holds_graft hn hs (Piece.ofFrame setting frame m.state.world)
  rw [hpiece] at hholds
  have hparts := hholds.part (Piece.admits_fieldParts setting frame hkeys none m.state.world)
    (fun part hm => by
      obtain ⟨other, -, -, hfits⟩ := Piece.fits_of_mem_fieldParts hm
      exact hfits.tidy) hmem
  rw [h.next_of_resolves hk hm hn hs]
  exact ⟨invocation, last, hparts⟩

end

section
variable {setting : Setting W O C T} {tree : SelectionTree (Definition W O C T)} {root : O}
  {world : W} {past : List (Moment W O C T)} {m last : Moment W O C T} {frame : Frame W O C T}
  {child : Node (Definition W O C T)}

/-- After an object was resolved that no field failed, the slots of its fields show the values of
the fields at all later moments. -/
theorem Reaches.shows_field (hk : tree.root.KeysDistinct)
    (hr : Reaches setting (.start root tree world) past last) (hm : m ∈ past)
    (hf : Piece.fails setting frame m.state.world = false) {value : FieldValue O C T}
    (hy : Yields setting m frame child (.ok value)) :
    Shows setting past last (frame.path ++ [.key child.key]) value := by
  obtain ⟨before, next, since, hbefore, hmove, hsince, rfl, -⟩ := hr.split hm
  obtain ⟨invocation, after, hholds⟩ := (hbefore.sound hk).holds_field hk hmove hf hy
  exact (hbefore.move hmove).shows hk hsince hholds

/-- A field with a list type and a list for its value shows the items of the list. -/
theorem Reaches.shows_items (hk : tree.root.KeysDistinct)
    (hr : Reaches setting (.start root tree world) past last) (hm : m ∈ past)
    (hf : Piece.fails setting frame m.state.world = false) {values : List (FieldValue O C T)}
    (hy : Yields setting m frame child (.ok (.list values))) (ht : child.type.item?.isSome) :
    (∃ items, last.state.data.at? (frame.path ++ [.key child.key]) = some (.array items)
        ∧ items.length = values.length)
      ∧ ∀ i value, values[i]? = some value →
        Shows setting past last (frame.path ++ [.key child.key, .index i]) value := by
  obtain ⟨item, ht⟩ := Option.isSome_iff_exists.1 ht
  obtain ⟨before, next, since, hbefore, hmove, hsince, rfl, -⟩ := hr.split hm
  obtain ⟨invocation, after, hholds⟩ := (hbefore.sound hk).holds_field hk hmove hf hy
  have hnext := hbefore.move hmove
  refine ⟨hnext.list_stays hk hsince ht hholds, ?_⟩
  intro i value hv
  obtain ⟨-, -, hitems⟩ := hholds.list ht
  obtain ⟨after', hitem⟩ := hitems i value hv
  have hshows := hnext.shows hk hsince hitem
  rwa [List.append_assoc] at hshows

end

end Execution

end QueryEngine
