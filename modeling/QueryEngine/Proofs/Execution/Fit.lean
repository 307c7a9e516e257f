import Mathlib.Data.List.Nodup
import QueryEngine.Proofs.Execution.Mark

/-!
# Pieces fit their slots

What completing a value contributes to an execution is in order whatever the value is: the marks
are tidy, the errors belong to fields and have codes, the objects and the tasks that are queued
belong to the field, and a slot whose type has no null holds null only under an error or a task
(`Fits`). This holds for one value (`Single.fits`), for lists of any depth (`fits_ofValue`), for
each field of an object (`fits_fieldPart`) and with it for objects (`tidy_ofFrame`).
-/

namespace QueryEngine

/-- The type of the slot that indices lead to from a slot of the type. -/
def TypeRef.slot? : TypeRef → List Nat → Option TypeRef
  | type, [] => some type
  | type, _ :: rest => type.item?.bind fun item => item.slot? rest

namespace Execution

variable {W O C T : Type}

/-- An error of a field that has a code. -/
def Labelled (error : ResponseError) : Prop :=
  error.path.isSome ∧ (error.extensions.lookup "code").isSome

/-- A key that was put there if absent is there. -/
theorem lookup_putIfAbsent {κ α : Type} [DecidableEq κ] (key : κ) (value : α)
    (entries : List (κ × α)) : ((Entries.putIfAbsent key value entries).lookup key).isSome := by
  unfold Entries.putIfAbsent
  split
  · assumption
  · rename_i h
    rw [Option.not_isSome_iff_eq_none] at h
    rw [List.lookup_append, h]
    simp

/-- Whatever the error of a field says, it has a path and a code in the response. -/
theorem labelled_ofFieldError (error : FieldError) (path : Path) (code : String) :
    Labelled (.ofFieldError error path code) :=
  ⟨rfl, lookup_putIfAbsent ..⟩

namespace Piece

/-- The slots that hold null because of an error or a task. -/
def nulls (piece : Piece W O C T) : List Path :=
  piece.errors.filterMap ResponseError.path ++ piece.pending.map Pending.path

/-- What the piece in a slot of a field is like, given the type of the slot. -/
structure Fits (node : Node (Definition W O C T)) (type : TypeRef) (path : Path)
    (piece : Piece W O C T) : Prop where
  tidy : piece.Tidy path False
  labelled : ∀ error ∈ piece.errors, Labelled error
  frames : ∀ frame ∈ piece.frames, frame.node = node
  pending : ∀ pending ∈ piece.pending, pending.invocation.node = node ∧
    ∃ indices : List Nat, pending.path = path ++ indices.map .index
      ∧ type.slot? indices = some pending.type
  accounted : ∀ indices slot, type.slot? indices = some slot → slot.isNonNull →
    piece.value.at? (indices.map .index) = some .null →
      path ++ indices.map .index ∈ piece.nulls

variable {node : Node (Definition W O C T)} {type : TypeRef} {path : Path}

/-! ## Single values -/

/-- An error with its code fits any slot. -/
theorem fits_failed (error : FieldError) (code : String) :
    (failed path error code : Piece W O C T).Fits node type path where
  tidy := tidy_of_marks_eq (.inr rfl)
  labelled e h := by
    rw [List.mem_singleton.1 h]
    exact labelled_ofFieldError ..
  frames _ h := by cases h
  pending _ h := by cases h
  accounted indices slot _ _ hnull := by
    simp [eq_nil_of_at?_null hnull, nulls, failed, ResponseError.ofFieldError]

/-- A value without positions, or in a slot that is for no list, fits if it may be null. -/
theorem fits_leaf {value : Json}
    (hi : type.item? = none ∨ ∀ i, value.child? (.index i) = none)
    (hv : value = .null → type.isNonNull = false) :
    (leaf value : Piece W O C T).Fits node type path where
  tidy := tidy_of_marks_eq (.inl rfl)
  labelled _ h := by cases h
  frames _ h := by cases h
  pending _ h := by cases h
  accounted indices slot ht hn hnull := by
    cases indices with
    | nil =>
      cases ht
      simp [hv (Option.some.inj hnull)] at hn
    | cons i rest =>
      rcases hi with hi | hi
      · simp [TypeRef.slot?, hi] at ht
      · simp [leaf, Json.at?_cons, hi] at hnull

/-- A value that is not completed item by item fits, if it is no list where the type is one. -/
theorem Single.fits {setting : Setting W O C T} {invocation : Invocation W O C T}
    {value : FieldValue O C T} {piece : Piece W O C T}
    (hs : piece.Single setting invocation type path value)
    (h : type.item? = none ∨ listItems? setting.host value = none) :
    piece.Fits invocation.node type path := by
  cases hs with
  | leaf json hn ha =>
    refine fits_leaf (h.imp_right fun hl i => ?_) hn
    cases json with
    | array items =>
      rw [ha items rfl] at hl
      cases hl
    | null | bool | number | string | object => rfl
  | failed => exact fits_failed ..
  | waiting task =>
    exact
      { tidy := tidy_of_marks_eq (.inr rfl)
        labelled := fun _ h => by cases h
        frames := fun _ h => by cases h
        pending := by
          intro pending hp
          rw [List.mem_singleton.1 hp]
          exact ⟨rfl, [], by simp, rfl⟩
        accounted := by
          intro indices slot _ _ hnull
          simp [eq_nil_of_at?_null hnull, nulls, Piece.waiting] }
  | object source concrete =>
    exact
      { tidy := tidy_of_marks_eq (.inr rfl)
        labelled := fun _ h => by cases h
        frames := fun frame hf => by rw [List.mem_singleton.1 hf]
        pending := fun _ h => by cases h
        accounted := by
          intro indices _ _ _ hnull
          cases indices with
          | nil => cases hnull
          | cons i rest => simp [Json.at?_cons, Json.child?] at hnull }

/-! ## Lists -/

section
variable {α : Type} {part : α → W → (Segment × Piece W O C T) × W}

/-- What is made of a list of values is made of one of them, in some world. -/
theorem mem_each {values : List α} {world : W} {made : Segment × Piece W O C T}
    (h : made ∈ (each part values world).1) :
    ∃ value ∈ values, ∃ world, made = (part value world).1 := by
  induction values generalizing world with
  | nil => cases h
  | cons value rest ih =>
    rcases List.mem_cons.1 h with rfl | h
    · exact ⟨value, List.mem_cons_self .., world, rfl⟩
    · obtain ⟨other, ho, world, rfl⟩ := ih h
      exact ⟨other, List.mem_cons_of_mem _ ho, world, rfl⟩

/-- Each value of a list has something made of it, in some world. -/
theorem exists_mem_each {values : List α} {value : α} (h : value ∈ values) (world : W) :
    ∃ world', (part value world').1 ∈ (each part values world).1 := by
  induction values generalizing world with
  | nil => cases h
  | cons first rest ih =>
    rcases List.mem_cons.1 h with rfl | h
    · exact ⟨world, List.mem_cons_self ..⟩
    · obtain ⟨world', hm⟩ := ih h (part first world).2
      exact ⟨world', List.mem_cons_of_mem _ hm⟩

/-- The steps to what is made of a list of values are the steps to the values. -/
theorem map_fst_each (step : α → Segment) (h : ∀ value world, (part value world).1.1 = step value)
    (values : List α) (world : W) :
    (each part values world).1.map Prod.fst = values.map step := by
  induction values generalizing world with
  | nil => rfl
  | cons value rest ih => simp [each, h, ih]

end

/-- The nulls of a gathered value are those of its parts. -/
theorem mem_nulls_gather {c : Container} {parts : List (Segment × Piece W O C T)} {path : Path} :
    path ∈ (gather c parts).nulls ↔ ∃ part ∈ parts, path ∈ part.2.nulls := by
  simp only [nulls, gather, List.mem_append, List.mem_filterMap, List.mem_flatMap, List.mem_map]
  constructor
  · rintro (⟨error, ⟨part, hp, he⟩, hpath⟩ | ⟨pending, ⟨part, hp, he⟩, hpath⟩)
    · exact ⟨part, hp, .inl ⟨error, he, hpath⟩⟩
    · exact ⟨part, hp, .inr ⟨pending, he, hpath⟩⟩
  · rintro ⟨part, hp, ⟨error, he, hpath⟩ | ⟨pending, he, hpath⟩⟩
    · exact .inl ⟨error, ⟨part, hp, he⟩, hpath⟩
    · exact .inr ⟨pending, ⟨part, hp, he⟩, hpath⟩

/-- Items that fit make a list that fits. -/
theorem fits_gather {item : TypeRef} (ht : type.item? = some item)
    {parts : List (Segment × Piece W O C T)}
    (hs : Container.array.Admits (parts.map Prod.fst))
    (hp : ∀ part ∈ parts, part.2.Fits node item (path ++ [part.1])) :
    (gather .array parts).Fits node type path where
  tidy := tidy_gather hs fun part hm => (hp part hm).tidy
  labelled error h := by
    obtain ⟨part, hm, he⟩ := List.mem_flatMap.1 h
    exact (hp part hm).labelled error he
  frames frame h := by
    obtain ⟨part, hm, hf⟩ := List.mem_flatMap.1 h
    exact (hp part hm).frames frame hf
  pending pending h := by
    obtain ⟨part, hm, hw⟩ := List.mem_flatMap.1 h
    obtain ⟨hn, indices, hi, hty⟩ := (hp part hm).pending pending hw
    obtain ⟨i, hpi⟩ : ∃ i, part.1 = .index i := by
      have hmem := List.mem_map_of_mem (f := Prod.fst) hm
      rw [hs] at hmem
      obtain ⟨i, -, hi⟩ := List.mem_map.1 hmem
      exact ⟨i, hi.symm⟩
    exact ⟨hn, i :: indices, by simp [hi, hpi], by simp [TypeRef.slot?, ht, hty]⟩
  accounted indices slot hty hn hnull := by
    cases indices with
    | nil => cases hnull
    | cons i rest =>
      simp only [TypeRef.slot?, ht, Option.bind_some] at hty
      rw [List.map_cons, Json.at?_cons] at hnull
      obtain ⟨value, hv, hnull⟩ := Option.bind_eq_some_iff.1 hnull
      rw [gather, Container.child?_build_iff (by rwa [map_fst_values])] at hv
      obtain ⟨⟨s, piece⟩, hm, he⟩ := List.mem_map.1 hv
      cases he
      have := (hp _ hm).accounted rest slot hty hn hnull
      exact mem_nulls_gather.2 ⟨_, hm, by simpa using this⟩

/-- The items of a list stand under their positions. -/
theorem map_fst_items (make : Path → FieldValue O C T → W → Piece W O C T × W) (path : Path)
    (items : List (FieldValue O C T)) (world : W) :
    (each (fun (value, index) world =>
      let (piece, world) := make (path ++ [.index index]) value world
      ((Segment.index index, piece), world)) items.zipIdx world).1.map Prod.fst
        = (List.range items.length).map .index := by
  rw [map_fst_each fun value => .index value.2, List.range_eq_range', ← List.zipIdx_map_snd,
    List.map_map]
  · rfl
  · intro value world
    rfl

/-- A list fits if its items do. -/
theorem fits_ofItems {item : TypeRef} (ht : type.item? = some item)
    {make : Path → FieldValue O C T → W → Piece W O C T × W}
    (hm : ∀ path value world, (make path value world).1.Fits node item path)
    (items : List (FieldValue O C T)) (world : W) :
    (ofItems make path items world).1.Fits node type path := by
  refine fits_gather ht ?_ ?_
  · exact map_fst_items make path items world ▸ Container.admits_array items.length
  intro part hp
  obtain ⟨⟨value, index⟩, -, world, rfl⟩ := mem_each hp
  exact hm ..

/-- Every value fits its slot once it is completed. -/
theorem fits_ofValue (setting : Setting W O C T) (invocation : Invocation W O C T)
    (type : TypeRef) (path : Path) (value : FieldValue O C T) (world : W) :
    (ofValue setting invocation type path value world).1.Fits invocation.node type path := by
  induction type generalizing path value world with
  | named name | nonNullNamed name => exact (single_ofSingle ..).fits (.inl rfl)
  | list item ih | nonNullList item ih =>
    simp only [ofValue]
    cases hl : listItems? setting.host value with
    | none => exact (single_ofSingle ..).fits (.inr hl)
    | some items => exact fits_ofItems rfl (fun path value world => ih path value world) items world

/-- The outcome of a task fits the slot of the task. -/
theorem fits_ofOutcome (setting : Setting W O C T) (pending : Pending W O C T)
    (outcome : Outcome O C T) (world : W) :
    (ofOutcome setting pending outcome world).1.Fits pending.invocation.node pending.type
      pending.path := by
  cases outcome with
  | ok value => exact fits_ofValue ..
  | error error => exact fits_failed ..

/-! ## Objects -/

/-- Every field of an object fits its slot, unless it fails the object. -/
theorem fits_fieldPart {setting : Setting W O C T} {frame : Frame W O C T}
    {child : Node (Definition W O C T)} {known : Option (Page O)} {world : W}
    {piece : Piece W O C T} {rest : Option (Page O) × W}
    (h : fieldPart setting frame child known world = (.ok piece, rest)) :
    piece.Fits child child.type (frame.path ++ [.key child.key]) := by
  revert h
  simp only [fieldPart]
  split
  · rintro ⟨⟩
    exact fits_leaf (.inr fun _ => rfl) fun h => by cases h
  · split
    · rintro ⟨⟩
      exact fits_failed ..
    · split
      · rintro ⟨⟩
        exact fits_ofValue setting ⟨child, _, _⟩ child.type _ _ _
      · split
        · rintro ⟨⟩
        · rintro ⟨⟩
          exact fits_failed ..

/-- Only a connection is failed by one of its fields. -/
theorem connection_of_fieldPart_error {setting : Setting W O C T} {frame : Frame W O C T}
    {child : Node (Definition W O C T)} {known : Option (Page O)} {world : W}
    {error : FieldError} {rest : Option (Page O) × W}
    (h : fieldPart setting frame child known world = (.error error, rest)) :
    ∃ connection, frame.source = .connection connection := by
  cases hs : frame.source with
  | connection connection => exact ⟨connection, rfl⟩
  | object object =>
    revert h
    simp only [fieldPart, failsFrame, hs]
    split
    · rintro ⟨⟩
    · split
      · rintro ⟨⟩
      · split <;> rintro ⟨⟩

section
variable {setting : Setting W O C T} {frame : Frame W O C T}

/-- The fields of an object that are resolved are the first ones, or all if none fails it. -/
theorem steps_fieldParts (setting : Setting W O C T) (frame : Frame W O C T)
    (children : List (Node (Definition W O C T))) (known : Option (Page O)) (world : W) : ∃ rest,
      fieldSteps children = (fieldParts setting frame children known world).1.map Prod.fst ++ rest
        ∧ ((fieldParts setting frame children known world).2.1 = none → rest = []) := by
  induction children generalizing known world with
  | nil => exact ⟨[], rfl, fun _ => rfl⟩
  | cons child others ih =>
    unfold fieldParts
    rcases fieldPart setting frame child known world with ⟨_ | piece, known, world⟩
    · exact ⟨fieldSteps (child :: others), rfl, fun h => by cases h⟩
    · obtain ⟨rest, he, hn⟩ := ih known world
      exact ⟨rest, by simp [fieldSteps, ← he], hn⟩

/-- A part of an object is the piece of one of its fields. -/
theorem exists_fieldPart_of_mem {children : List (Node (Definition W O C T))}
    {known : Option (Page O)} {world : W} {part : Segment × Piece W O C T}
    (h : part ∈ (fieldParts setting frame children known world).1) :
    ∃ child ∈ children, part.1 = .key child.key
      ∧ ∃ known world rest, fieldPart setting frame child known world = (.ok part.2, rest) := by
  induction children generalizing known world with
  | nil => cases h
  | cons child others ih =>
    unfold fieldParts at h
    rcases hf : fieldPart setting frame child known world with ⟨_ | piece, known', world'⟩
    · simp [hf] at h
    · rw [hf] at h
      rcases List.mem_cons.1 h with rfl | h
      · exact ⟨child, List.mem_cons_self .., rfl, known, world, _, hf⟩
      · obtain ⟨other, ho, hs, hp⟩ := ih h
        exact ⟨other, List.mem_cons_of_mem _ ho, hs, hp⟩

/-- The resolved fields of an object fit their slots. -/
theorem fits_of_mem_fieldParts {children : List (Node (Definition W O C T))}
    {known : Option (Page O)} {world : W} {part : Segment × Piece W O C T}
    (h : part ∈ (fieldParts setting frame children known world).1) :
    ∃ child ∈ children, part.1 = .key child.key
      ∧ part.2.Fits child child.type (frame.path ++ [part.1]) := by
  obtain ⟨child, hc, hs, _, _, _, hf⟩ := exists_fieldPart_of_mem h
  exact ⟨child, hc, hs, hs ▸ fits_fieldPart hf⟩

/-- Only a connection can be failed. -/
theorem connection_of_fieldParts_failure {children : List (Node (Definition W O C T))}
    {known : Option (Page O)} {world : W}
    (h : (fieldParts setting frame children known world).2.1.isSome) :
    ∃ connection, frame.source = .connection connection := by
  induction children generalizing known world with
  | nil => cases h
  | cons child others ih =>
    unfold fieldParts at h
    rcases hf : fieldPart setting frame child known world with ⟨_ | piece, known, world⟩
    · exact connection_of_fieldPart_error hf
    · rw [hf] at h
      exact ih h

/-- Nodes with distinct keys stand under distinct steps. -/
theorem admits_fieldParts (setting : Setting W O C T) (frame : Frame W O C T)
    {children : List (Node (Definition W O C T))}
    (hk : (children.map Node.key).Nodup) (known : Option (Page O)) (world : W) :
    Container.object.Admits
      ((fieldParts setting frame children known world).1.map Prod.fst) := by
  obtain ⟨rest, he, -⟩ := steps_fieldParts setting frame children known world
  have ha := Container.admits_object hk
  have hs : (children.map Node.key).map Segment.key = fieldSteps children := by
    simp [fieldSteps, Function.comp_def]
  rw [hs, he] at ha
  exact ⟨(List.nodup_append.1 ha.1).1, fun s hm => ha.2 s (List.mem_append_left _ hm)⟩

end

/-- Whether a field fails the object. -/
def fails (setting : Setting W O C T) (frame : Frame W O C T) (world : W) : Bool :=
  (fieldParts setting frame (included setting frame) none world).2.1.isSome

/-- The marks of an object that a field failed are those of its fields and its own. -/
theorem marks_close_some (path : Path) (parts : List (Segment × Piece W O C T))
    (error : FieldError) :
    (close path parts (some error)).marks.Perm ((path, .null) :: (gather .object parts).marks) := by
  have he : (close path parts (some error)).marks
      = errorMarks (parts.flatMap (·.2.errors)) ++ (path, .null) ::
        ((gather .object parts).frames.map Frame.mark
          ++ (gather .object parts).pending.map Pending.mark) := by
    simp [marks, close, errorMarks, ResponseError.ofFieldError]
  rw [he]
  refine List.perm_middle.trans (.cons _ ?_)
  simp [marks, gather]

/-- The piece of an object is tidy if those of its fields are. -/
theorem tidy_close {path : Path} {parts : List (Segment × Piece W O C T)}
    (hs : Container.object.Admits (parts.map Prod.fst))
    (ht : ∀ part ∈ parts, part.2.Tidy (path ++ [part.1]) False) (failure : Option FieldError) :
    (close path parts failure).Tidy path failure.isSome := by
  cases failure with
  | none =>
    have h : (gather .object parts).Tidy path False := tidy_gather hs ht
    exact ⟨h.nodup, fun mark hm => by simpa [close] using h.holds mark hm, nofun⟩
  | some error =>
    have hp := marks_close_some path parts error
    have hmem : (path, .null) ∈ (close path parts (some error)).marks :=
      hp.mem_iff.2 (List.mem_cons_self ..)
    refine ⟨(hp.map Prod.fst).nodup_iff.2 ?_, ?_, fun _ => ⟨rfl, hmem⟩⟩
    · refine List.nodup_cons.2 ⟨?_, (tidy_gather hs ht).nodup⟩
      intro hm
      obtain ⟨mark, hm, he⟩ := List.mem_map.1 hm
      obtain ⟨rest, hne, hr, -⟩ := holds_gather hs ht hm
      exact hne (by simpa [he] using hr)
    · intro mark hm
      rcases List.mem_cons.1 (hp.mem_iff.1 hm) with rfl | hm
      · exact ⟨[], by simp, .inl rfl⟩
      · obtain ⟨rest, hne, hr, -⟩ := holds_gather hs ht hm
        exact ⟨rest, hr, .inr ⟨rfl, hne⟩⟩

section
variable {setting : Setting W O C T} {frame : Frame W O C T}

/-- The piece of an object is tidy. -/
theorem tidy_ofFrame (hk : ((included setting frame).map Node.key).Nodup) (world : W) :
    (ofFrame setting frame world).1.Tidy frame.path (fails setting frame world) := by
  refine tidy_close (admits_fieldParts setting frame hk none world) (fun part hm => ?_) _
  obtain ⟨child, -, -, hf⟩ := fits_of_mem_fieldParts hm
  exact hf.tidy

/-- Only connections fail. -/
theorem connection_of_fails {world : W} (h : fails setting frame world) :
    ∃ connection, frame.source = .connection connection :=
  connection_of_fieldParts_failure h

/-- What an object comes to is null exactly if a field fails it. -/
theorem value_ofFrame_eq_null_iff {world : W} :
    (ofFrame setting frame world).1.value = .null ↔ fails setting frame world := by
  simp only [ofFrame, fails]
  cases (fieldParts setting frame (included setting frame) none world).2.1 with
  | none => simp [close, gather, Container.build]
  | some error => simp [close]

/-- What an object comes to has no positions. -/
theorem child?_value_ofFrame_index (world : W) (i : Nat) :
    (ofFrame setting frame world).1.value.child? (.index i) = none := by
  simp only [ofFrame]
  cases (fieldParts setting frame (included setting frame) none world).2.1 <;> rfl

/-- The errors of an object belong to its fields or to itself, and have codes. -/
theorem labelled_ofFrame {world : W} {error : ResponseError}
    (h : error ∈ (ofFrame setting frame world).1.errors) : Labelled error := by
  have hpart : error ∈ (fieldParts setting frame (included setting frame) none world).1.flatMap
      (·.2.errors) → Labelled error := by
    intro h
    obtain ⟨part, hm, he⟩ := List.mem_flatMap.1 h
    obtain ⟨child, -, -, hf⟩ := fits_of_mem_fieldParts hm
    exact hf.labelled error he
  simp only [ofFrame, close] at h
  split at h
  · exact hpart h
  · rcases List.mem_append.1 h with h | h
    · exact hpart h
    · rw [List.mem_singleton.1 h]
      exact labelled_ofFieldError ..

/-- The objects below an object are those below its fields, also where a field fails it. -/
theorem frames_ofFrame (world : W) :
    (ofFrame setting frame world).1.frames
      = (fieldParts setting frame (included setting frame) none world).1.flatMap
        (·.2.frames) := by
  simp only [ofFrame, close]
  split <;> rfl

/-- The tasks below an object are those below its fields, also where a field fails it. -/
theorem pending_ofFrame (world : W) :
    (ofFrame setting frame world).1.pending
      = (fieldParts setting frame (included setting frame) none world).1.flatMap
        (·.2.pending) := by
  simp only [ofFrame, close]
  split <;> rfl

/-- An object that a field of an object is answered with lies strictly within it. -/
theorem mem_frames_ofFrame {world : W} {inner : Frame W O C T}
    (h : inner ∈ (ofFrame setting frame world).1.frames) :
    ∃ child ∈ included setting frame, inner.node = child
      ∧ ∃ rest, inner.path = frame.path ++ .key child.key :: rest := by
  rw [frames_ofFrame] at h
  obtain ⟨part, hm, hi⟩ := List.mem_flatMap.1 h
  obtain ⟨child, hc, hs, hf⟩ := fits_of_mem_fieldParts hm
  have hmark : inner.mark ∈ part.2.marks := by
    simp only [marks, List.mem_append, List.mem_map]
    exact .inl (.inr ⟨inner, hi, rfl⟩)
  obtain ⟨rest, hr, -⟩ := hf.tidy.holds _ hmark
  exact ⟨child, hc, hf.frames inner hi, rest, by simpa [hs, Frame.mark] using hr⟩

/-- A task that a field of an object is answered with fills a slot of the field. -/
theorem mem_pending_ofFrame {world : W} {pending : Pending W O C T}
    (h : pending ∈ (ofFrame setting frame world).1.pending) :
    ∃ child ∈ included setting frame, pending.invocation.node = child
      ∧ ∃ indices : List Nat,
        pending.path = frame.path ++ .key child.key :: indices.map .index
          ∧ child.type.slot? indices = some pending.type := by
  rw [pending_ofFrame] at h
  obtain ⟨part, hm, hi⟩ := List.mem_flatMap.1 h
  obtain ⟨child, hc, hs, hf⟩ := fits_of_mem_fieldParts hm
  obtain ⟨hn, indices, hp, ht⟩ := hf.pending pending hi
  exact ⟨child, hc, hn, indices, by simpa [hs] using hp, ht⟩

/-- Unless a connection fails, all its slots that must not hold null are accounted for. -/
theorem accounted_ofFrame (hk : ((included setting frame).map Node.key).Nodup) {world : W}
    (hf : ¬ fails setting frame world) {child : Node (Definition W O C T)}
    (hc : child ∈ included setting frame) {indices : List Nat} {slot : TypeRef}
    (ht : child.type.slot? indices = some slot) (hn : slot.isNonNull)
    (hnull : (ofFrame setting frame world).1.value.at? (.key child.key :: indices.map .index)
      = some .null) :
    frame.path ++ .key child.key :: indices.map .index
      ∈ (ofFrame setting frame world).1.nulls := by
  have ha := admits_fieldParts setting frame hk none world
  have hnone : (fieldParts setting frame (included setting frame) none world).2.1 = none := by
    simpa [fails] using hf
  simp only [ofFrame, hnone, close] at hnull ⊢
  rw [Json.at?_cons] at hnull
  obtain ⟨value, hv, hnull⟩ := Option.bind_eq_some_iff.1 hnull
  rw [gather, Container.child?_build_iff (by rwa [map_fst_values])] at hv
  obtain ⟨⟨s, piece⟩, hm, he⟩ := List.mem_map.1 hv
  cases he
  obtain ⟨other, ho, hs, hfits⟩ := fits_of_mem_fieldParts hm
  obtain rfl : other = child := by
    have hkey : child.key = other.key := by simpa using hs
    exact List.inj_on_of_nodup_map hk ho hc hkey.symm
  have := hfits.accounted indices slot ht hn hnull
  exact mem_nulls_gather.2 ⟨_, hm, by simpa using this⟩

/-- A connection that fails is accounted for itself. -/
theorem mem_nulls_of_fails {world : W} (hf : fails setting frame world) :
    frame.path ∈ (ofFrame setting frame world).1.nulls := by
  obtain ⟨error, he⟩ := Option.isSome_iff_exists.1 hf
  simp [ofFrame, he, close, nulls, ResponseError.ofFieldError]

end

end Piece

end Execution

end QueryEngine
