import QueryEngine.Proofs.Execution.Limits
import QueryEngine.Proofs.Execution.Nulls
import QueryEngine.Proofs.Execution.Strays

/-!
# The shape of fields with sub-selections

Whatever the resolvers and the tasks yield, a field that has a sub-selection ends as null, as a
list where its type is one, or as an object with exactly the keys that are included for the type of
the object, down to the last sub-selection. The exception is JSON that does not fit the field:
it is in the response as it is (`execute_conforms`, `execute_conforms_not`). `Composed` is what
every moment satisfies; one move keeps it (`Composed.effect`).
-/

namespace QueryEngine

namespace Json

/-- A part of a value is smaller than the value. -/
theorem sizeOf_lt_of_child? {value part : Json} {s : Segment} (h : value.child? s = some part) :
    sizeOf part < sizeOf value := by
  cases value <;> cases s <;> simp only [child?, reduceCtorEq] at h
  · have := List.sizeOf_lt_of_mem (List.mem_of_getElem? h)
    simp only [array.sizeOf_spec]
    omega
  · rename_i fields name
    obtain ⟨key, hm, -⟩ : ∃ key, (key, part) ∈ fields ∧ key = name := by
      induction fields with
      | nil => cases h
      | cons field rest ih =>
        obtain ⟨key, value⟩ := field
        rw [List.lookup_cons] at h
        split at h
        · rename_i he
          cases h
          exact ⟨key, List.mem_cons_self .., (by simpa using he : name = key).symm⟩
        · obtain ⟨key, hm, hk⟩ := ih h
          exact ⟨key, List.mem_cons_of_mem _ hm, hk⟩
    have hlt := List.sizeOf_lt_of_mem hm
    simp only [Prod.mk.sizeOf_spec] at hlt
    simp only [object.sizeOf_spec]
    omega

end Json

namespace Execution

open Moment

variable {W O C T : Type}

/-- What the value of a field with a sub-selection is like at the end, given the JSON that may
stray into slots: null; a list of such values where the type is one; an object that was resolved
and has exactly the keys that are included for its type, with such values for the fields that have
sub-selections themselves; or JSON that strayed into the slot. An object is in the slot of a list
only where JSON strayed. -/
inductive Conforms (setting : Setting W O C T) (past : List (Moment W O C T))
    (stray : Path → Json → Prop) : Node (Definition W O C T) → TypeRef → Path → Json → Prop
  | null {node type path} : Conforms setting past stray node type path .null
  | list {node type path} {item : TypeRef} {items : List Json} (ht : type.item? = some item)
    (hi : ∀ (i : Nat) value, items[i]? = some value →
      Conforms setting past stray node item (path ++ [.index i]) value) :
    Conforms setting past stray node type path (.array items)
  | object {node type path} {frame : Frame W O C T} {fields : Fields} (hr : Resolved past frame)
    (ha : frame.Answers setting node path)
    (ht : type.item? = none ∨ ∃ given, stray path (.object given))
    (hk : fields.map Prod.fst = (Piece.included setting frame).map Node.key)
    (hc : ∀ child ∈ Piece.included setting frame, child.isComposite → child.isTypename = false →
      ∀ value, fields.lookup child.key = some value →
        Conforms setting past stray child child.type (path ++ [.key child.key]) value) :
    Conforms setting past stray node type path (.object fields)
  | raw {node type path} {value : Json} (hs : stray path value)
    (hn : ∀ fields, value ≠ .object fields) : Conforms setting past stray node type path value

/-! ## What holds at every moment -/

/-- A task fills a slot of a field of an object that was resolved. -/
def Owned (setting : Setting W O C T) (past : List (Moment W O C T))
    (pending : Pending W O C T) : Prop :=
  ∃ frame, Resolved past frame ∧ ∃ child ∈ Piece.included setting frame, ∃ indices : List Nat,
    pending.path = frame.path ++ .key child.key :: indices.map .index
      ∧ child.type.slot? indices = some pending.type ∧ pending.invocation.node = child

/-- What every moment of an execution satisfies: tasks belong to fields, the slots of fields with
sub-selections hold what they should, and objects keep their keys. -/
structure Composed (setting : Setting W O C T) (past : List (Moment W O C T))
    (m : Moment W O C T) : Prop where
  owned : ∀ pending ∈ m.waiting, Owned setting past pending
  held : ∀ frame, Resolved past frame → ∀ child ∈ Piece.included setting frame,
    child.isComposite → child.isTypename = false → ∀ (indices : List Nat) slot value,
      child.type.slot? indices = some slot →
      m.state.data.at? (frame.path ++ .key child.key :: indices.map .index) = some value →
        Held setting past m.works (Strayed setting past) child slot
          (frame.path ++ .key child.key :: indices.map .index) value
  kept : ∀ frame, Resolved past frame → ∀ value, m.state.data.at? frame.path = some value →
    (value = .null ∧ ∃ connection, frame.source = .connection connection)
      ∨ ∃ fields, value = .object fields
        ∧ fields.map Prod.fst = (Piece.included setting frame).map Node.key

section
variable {setting : Setting W O C T} {root : Node (Definition W O C T)}
  {past : List (Moment W O C T)} {m rest : Moment W O C T} {work : Work W O C T}

/-- A task of a field stays one. -/
theorem Owned.cons {pending : Pending W O C T} (h : Owned setting past pending) :
    Owned setting (m :: past) pending := by
  obtain ⟨frame, hr, hrest⟩ := h
  exact ⟨frame, hr.cons, hrest⟩

/-- A misfit stays where it was put. -/
theorem Strayed.cons {path : Path} {json : Json} (h : Strayed setting past path json) :
    Strayed setting (m :: past) path json := by
  obtain ⟨earlier, he, hrest⟩ := h
  exact ⟨earlier, List.mem_cons_of_mem _ he, hrest⟩

/-- An object comes to an object with the keys that are included, unless it is a connection that
one of its fields fails. -/
theorem Piece.value_ofFrame (setting : Setting W O C T) (frame : Frame W O C T) (world : W) :
    ((ofFrame setting frame world).1.value = .null
        ∧ ∃ connection, frame.source = .connection connection)
      ∨ ∃ fields, (ofFrame setting frame world).1.value = .object fields
        ∧ fields.map Prod.fst = (included setting frame).map Node.key := by
  by_cases hf : fails setting frame world
  · exact .inl ⟨value_ofFrame_eq_null_iff.2 hf, connection_of_fails hf⟩
  · have hnone : (fieldParts setting frame (included setting frame) none world).2.1 = none := by
      simpa [fails] using hf
    obtain ⟨rest, he, hrest⟩ :=
      steps_fieldParts setting frame (included setting frame) none world
    obtain rfl := hrest hnone
    rw [List.append_nil] at he
    refine .inr ⟨_, by simp only [ofFrame, hnone, close, gather, Container.build]; rfl, ?_⟩
    have hkeys := congrArg (List.map Segment.text) he.symm
    simpa [fieldSteps, Function.comp_def] using hkeys

/-! ## Doing work -/

/-- What the next work puts into slots stays beside everything else. -/
theorem Sound.held_piece (h : Sound setting root past m) (hn : m.next? = some (work, rest))
    (hs : (m.state.data.at? work.path).isSome) {node : Node (Definition W O C T)}
    {type : TypeRef} {tail : Path} {value : Json}
    (hheld : Held setting [] (work.piece setting m.state.world).1.works
      (fun slot json => (slot, json) ∈ work.strays setting m.state.world) node type
      (work.path ++ tail) value) :
    Held setting (m :: past) (rest.graft work.path (work.piece setting m.state.world)).works
      (Strayed setting (m :: past)) node type (work.path ++ tail) value := by
  have hworks := works_graft rest work.path (work.piece setting m.state.world)
  refine hheld.mono ?_ ?_ ?_ ?_
  · intro frame hr
    simp [Resolved] at hr
  · intro json hj
    exact ⟨m, List.mem_cons_self .., work, rest, hn, hj⟩
  · intro frame hw _
    exact hworks.mem_iff.2 (List.mem_append_right _ hw)
  · intro hapart other ho
    rcases List.mem_append.1 (hworks.mem_iff.1 ho) with ho | ho
    · exact ((h.apart_work hn hs ho).append_left tail).symm
    · exact hapart other ho

/-- Two objects that are open in one slot are the same. -/
theorem Sound.work_eq (h : Sound setting root past m) {a b : Work W O C T} (ha : a ∈ m.works)
    (hb : b ∈ m.works) (he : a.path = b.path) : a = b := by
  have hnodup : (m.works.map Work.path).Nodup := by
    have hmarks := h.marked.nodup
    rw [marks, List.map_append, List.map_map] at hmarks
    have hfst : Prod.fst ∘ Work.mark = (Work.path : Work W O C T → Path) := by
      funext work
      exact work.mark_fst
    rw [hfst] at hmarks
    exact (List.nodup_append.1 hmarks).2.1
  exact List.inj_on_of_nodup_map hnodup ha hb he

section
variable (hk : root.KeysDistinct) (hsound : Sound setting root past m)
  (h : Composed setting past m) (hn : m.next? = some (work, rest))
include hk hsound h hn

/-- A slot within that of the next work holds what it should after the work. -/
theorem Composed.held_within (hd : m.state.data.at? work.path = some work.mark.2)
    {frame : Frame W O C T} (hr : Resolved past frame) {child : Node (Definition W O C T)}
    (hc : child ∈ Piece.included setting frame) (hcomp : child.isComposite)
    (hname : child.isTypename = false) {indices : List Nat} {slot : TypeRef} {value : Json}
    (ht : child.type.slot? indices = some slot)
    (hwithin : work.path <+: frame.path ++ .key child.key :: indices.map .index)
    (hv : (m.state.data.fill work.path (work.piece setting m.state.world).1.value).at?
      (frame.path ++ .key child.key :: indices.map .index) = some value) :
    Held setting (m :: past) (rest.graft work.path (work.piece setting m.state.world)).works
      (Strayed setting (m :: past)) child slot
      (frame.path ++ .key child.key :: indices.map .index) value := by
  have hs : (m.state.data.at? work.path).isSome := by simp [hd]
  have hw := mem_works_next hn
  obtain ⟨tail, hp⟩ := hwithin
  obtain ⟨frame', hr', child', hc', before, after, hq, rfl, ht'⟩ :=
    hsound.slot_within hw ⟨frame, hr, child, hc, indices, hp, ht⟩
  obtain ⟨hpath, hkey, rfl⟩ : frame'.path = frame.path ∧ child'.key = child.key
      ∧ before ++ after = indices := by
    refine Path.eq_of_append_key ?_
    rw [← hp, hq]
    simp
  obtain rfl := hsound.once _ _ hr' hr hpath
  obtain rfl : child' = child :=
    List.inj_on_of_nodup_map (included_nodup hk (hsound.resolved _ hr)) hc' hc hkey
  rw [← hp] at hv ⊢
  rw [Json.at?_fill_append hs] at hv
  cases work with
  | object inner =>
    cases after with
    | cons i after =>
      rw [List.map_cons, Json.at?_cons] at hv
      simp [Work.piece, Piece.child?_value_ofFrame_index] at hv
    | nil =>
      -- The object was queued in this slot, and is resolved now.
      have hq' : inner.path = frame'.path ++ .key child'.key :: before.map .index := hq
      have hold : m.state.data.at? (frame'.path ++ .key child'.key :: before.map .index)
          = some (.object []) := hq' ▸ hd
      have hheld := h.held frame' hr child' hc hcomp hname before slot _ (by simpa using ht) hold
      have hnow : Resolved (m :: past) inner :=
        resolved_cons.2 (.inl ((resolves_iff hn hs inner).2 rfl))
      have hpos : (Work.object inner).path ++ ([] : List Nat).map Segment.index
          = frame'.path ++ .key child'.key :: before.map .index := by simpa using hq
      rw [hpos]
      cases hheld with
      | @queued other ho ha hlist =>
        obtain rfl : inner = other :=
          Work.object.inj (hsound.work_eq hw ho (hq'.trans ha.path_eq.symm))
        exact .resolved hnow ha (hlist.imp_right (Exists.imp fun _ hg => hg.cons))
      | @resolved other _ ho ha =>
        have hsame : inner.path = other.path := hq'.trans ha.path_eq.symm
        exact absurd (hsame ▸ List.prefix_refl _) (hsound.fresh _ hw other ho)
      | raw hs hobj => exact absurd rfl (hobj [])
  | task pending => exact absurd rfl (next_ne_task hn pending)
  | outcome pending result =>
    have hwaiting : pending ∈ m.waiting := by
      rcases next?_eq_some hn with ⟨_, _, he, hdue, _⟩ | ⟨_, he, _⟩
      · cases he
        simp [waiting, hdue]
      · cases he
    obtain ⟨other, ho, child'', hc'', indices, hpath', hty, hnode⟩ := h.owned pending hwaiting
    obtain ⟨hpe, hke, rfl⟩ := Path.eq_of_append_key (hq.symm.trans hpath')
    obtain rfl := hsound.once _ _ hr ho hpe
    obtain rfl : child' = child'' :=
      List.inj_on_of_nodup_map (included_nodup hk (hsound.resolved _ hr)) hc hc'' hke
    rw [TypeRef.slot?_append, hty] at ht
    refine hsound.held_piece hn hs ?_
    cases result with
    | ok value =>
      have hcomp' : pending.invocation.node.isComposite := by rwa [hnode]
      have hheld := Piece.holds_ofValue setting hcomp' pending.type pending.path value
        m.state.world after slot _ ht hv
      rwa [hnode] at hheld
    | error error =>
      have hv : Json.null.at? (after.map .index) = some value := hv
      obtain rfl : value = .null := by
        have hnil := eq_nil_of_at?_null hv
        rw [hnil] at hv
        simpa using hv.symm
      exact .null

omit hk hsound in
/-- A slot that the slot of the next work does not lie around holds what it should after the
work. -/
theorem Composed.held_outside (hd : m.state.data.at? work.path = some work.mark.2)
    {frame : Frame W O C T} (hr : Resolved past frame) {child : Node (Definition W O C T)}
    (hc : child ∈ Piece.included setting frame) (hcomp : child.isComposite)
    (hname : child.isTypename = false) {indices : List Nat} {slot : TypeRef} {value : Json}
    (ht : child.type.slot? indices = some slot)
    (hwithin : ¬ work.path <+: frame.path ++ .key child.key :: indices.map .index)
    (hv : (m.state.data.fill work.path (work.piece setting m.state.world).1.value).at?
      (frame.path ++ .key child.key :: indices.map .index) = some value) :
    Held setting (m :: past) (rest.graft work.path (work.piece setting m.state.world)).works
      (Strayed setting (m :: past)) child slot
      (frame.path ++ .key child.key :: indices.map .index) value := by
  have hworks := works_graft rest work.path (work.piece setting m.state.world)
  have hold := h.held frame hr child hc hcomp hname indices slot
  generalize frame.path ++ .key child.key :: indices.map .index = path at *
  by_cases habove : path <+: work.path
  · obtain ⟨tail, htail⟩ := habove
    have hne : tail ≠ [] := by
      rintro rfl
      exact hwithin (by simp [← htail])
    rw [← htail, Json.at?_fill_above] at hv
    obtain ⟨around, ha, rfl⟩ := Option.map_eq_some_iff.1 hv
    have hinner : around.at? tail = some work.mark.2 := by
      rw [← htail, Json.at?_append_of_eq ha] at hd
      exact hd
    cases hold around ht ha with
    | null => exact absurd (eq_nil_of_at?_null hinner) hne
    | array hitem =>
      obtain ⟨others, he, -⟩ := Json.top_eq_array (Json.top_fill hne _)
      rw [he]
      exact .array hitem
    | queued =>
      exact absurd (eq_nil_of_at?_isSome (fun s => Json.child?_emptyObject s)
        (Option.isSome_iff_exists.2 ⟨_, hinner⟩)) hne
    | resolved hr' ha' hlist =>
      exact .resolved hr'.cons ha' (hlist.imp_right (Exists.imp fun _ hg => hg.cons))
    | raw hs hobj hw => exact absurd ⟨tail, htail⟩ (hw work (mem_works_next hn)).2
  · have hap : Path.Apart work.path path := ⟨hwithin, habove⟩
    rw [Json.at?_fill_of_apart hap] at hv
    refine (hold value ht hv).mono (fun _ hr => hr.cons) (fun _ hj => hj.cons) ?_ ?_
    · intro inner hi hpath
      rw [works_next hn] at hi
      rcases List.mem_cons.1 hi with rfl | hi
      · exact absurd (hpath ▸ List.prefix_refl _) hwithin
      · exact hworks.mem_iff.2 (List.mem_append_left _ hi)
    · intro hapart other ho
      rcases List.mem_append.1 (hworks.mem_iff.1 ho) with ho | ho
      · exact hapart other (mem_works_of_next hn ho)
      · obtain ⟨tail, ht, -⟩ := Work.path_of_mem_works ho
        rw [ht]
        exact hap.append_left tail

/-- The slots of fields with sub-selections hold what they should after work. -/
theorem Composed.held_graft (hd : m.state.data.at? work.path = some work.mark.2)
    {frame : Frame W O C T} (hr : Resolved (m :: past) frame)
    {child : Node (Definition W O C T)} (hc : child ∈ Piece.included setting frame)
    (hcomp : child.isComposite) (hname : child.isTypename = false) {indices : List Nat}
    {slot : TypeRef} {value : Json} (ht : child.type.slot? indices = some slot)
    (hv : (m.state.data.fill work.path (work.piece setting m.state.world).1.value).at?
      (frame.path ++ .key child.key :: indices.map .index) = some value) :
    Held setting (m :: past) (rest.graft work.path (work.piece setting m.state.world)).works
      (Strayed setting (m :: past)) child slot
      (frame.path ++ .key child.key :: indices.map .index) value := by
  have hs : (m.state.data.at? work.path).isSome := by simp [hd]
  rcases eq_or_resolved_of_cons hn hs hr with rfl | hr
  · have hnodup := hsound.keys_next hk hn frame rfl
    have hv : (Piece.ofFrame setting frame m.state.world).1.value.at?
        (.key child.key :: indices.map .index) = some value := by
      rw [← Json.at?_fill_append hs]
      exact hv
    exact hsound.held_piece hn hs (Piece.holds_ofFrame hnodup hc hcomp hname ht hv)
  · by_cases hwithin : work.path <+: frame.path ++ .key child.key :: indices.map .index
    · exact h.held_within hk hsound hn hd hr hc hcomp hname ht hwithin hv
    · exact h.held_outside hn hd hr hc hcomp hname ht hwithin hv

omit hk in
/-- Objects keep their keys over work. -/
theorem Composed.kept_graft (hd : m.state.data.at? work.path = some work.mark.2)
    {frame : Frame W O C T} (hr : Resolved (m :: past) frame) {value : Json}
    (hv : (m.state.data.fill work.path (work.piece setting m.state.world).1.value).at? frame.path
      = some value) :
    (value = .null ∧ ∃ connection, frame.source = .connection connection)
      ∨ ∃ fields, value = .object fields
        ∧ fields.map Prod.fst = (Piece.included setting frame).map Node.key := by
  have hs : (m.state.data.at? work.path).isSome := by simp [hd]
  rcases eq_or_resolved_of_cons hn hs hr with rfl | hr
  · have hself : value = (Piece.ofFrame setting frame m.state.world).1.value := by
      have hfill := Json.at?_fill_self hs (Piece.ofFrame setting frame m.state.world).1.value
      exact Option.some.inj (hv.symm.trans hfill)
    rw [hself]
    exact Piece.value_ofFrame ..
  · have hwithin := hsound.fresh _ (mem_works_next hn) frame hr
    by_cases habove : frame.path <+: work.path
    · obtain ⟨tail, htail⟩ := habove
      have hne : tail ≠ [] := by
        rintro rfl
        exact hwithin (by simp [← htail])
      rw [← htail, Json.at?_fill_above] at hv
      obtain ⟨around, ha, rfl⟩ := Option.map_eq_some_iff.1 hv
      rcases h.kept frame hr around ha with ⟨rfl, -⟩ | ⟨fields, rfl, hkeys⟩
      · rw [← htail, Json.at?_append_of_eq ha] at hd
        exact absurd (eq_nil_of_at?_null hd) hne
      · have htop : ((Json.object fields).fill tail (work.piece setting m.state.world).1.value).top
            = (Json.object fields).top := Json.top_fill hne _
        obtain ⟨others, he, hothers⟩ := Json.top_eq_object htop
        exact .inr ⟨others, he, hothers.trans hkeys⟩
    · rw [Json.at?_fill_of_apart ⟨hwithin, habove⟩] at hv
      exact h.kept frame hr value hv

omit hk hsound in
/-- The tasks that wait after work belong to fields. -/
theorem Composed.owned_graft (hd : m.state.data.at? work.path = some work.mark.2)
    {pending : Pending W O C T}
    (hp : pending ∈ (rest.graft work.path (work.piece setting m.state.world)).waiting) :
    Owned setting (m :: past) pending := by
  have hs : (m.state.data.at? work.path).isSome := by simp [hd]
  rcases mem_waiting_graft.1 hp with hp | hp
  · exact (h.owned pending (mem_waiting_next hn hp)).cons
  · cases work with
    | object frame =>
      obtain ⟨child, hc, hnode, indices, hpath, ht⟩ := Piece.mem_pending_ofFrame hp
      have hr : Resolved (m :: past) frame :=
        resolved_cons.2 (.inl ((resolves_iff hn hs frame).2 rfl))
      exact ⟨frame, hr, child, hc, indices, hpath, ht, hnode⟩
    | task other => exact absurd rfl (next_ne_task hn other)
    | outcome other result =>
      have hother : other ∈ m.waiting := by
        rcases next?_eq_some hn with ⟨_, _, he, hdue, _⟩ | ⟨_, he, _⟩
        · cases he
          simp [waiting, hdue]
        · cases he
      obtain ⟨frame, hr, child, hc, before, hpath, ht, hnode⟩ := h.owned other hother
      obtain ⟨hnode', after, hpath', ht'⟩ :=
        (Piece.fits_ofOutcome setting other result m.state.world).pending pending hp
      refine ⟨frame, hr.cons, child, hc, before ++ after, ?_, ?_, hnode'.trans hnode⟩
      · rw [hpath', hpath]
        simp
      · rw [TypeRef.slot?_append, ht, Option.bind_some, ht']

end

/-- One move keeps it. -/
theorem Composed.effect (h : Composed setting past m) (hk : root.KeysDistinct)
    (hsound : Sound setting root past m) {m' : Moment W O C T} (he : Effect setting m m') :
    Composed setting (m :: past) m' := by
  cases he with
  | @skip work rest hn hd =>
    have hnot := not_resolves_of_none hn hd
    refine ⟨?_, ?_, ?_⟩
    · exact fun pending hp => (h.owned pending (mem_waiting_next hn hp)).cons
    · intro frame hr child hc hcomp hname indices slot value ht hv
      rw [data_next hn] at hv
      refine (h.held frame ((resolved_cons_of_not hnot).1 hr) child hc hcomp hname indices slot
        value ht hv).mono (fun _ hr => hr.cons) (fun _ hj => hj.cons) ?_ ?_
      · intro inner hi hpath
        rw [works_next hn] at hi
        rcases List.mem_cons.1 hi with rfl | hi
        · have hd : m.state.data.at? inner.path = none := hd
          simp [← hpath, hd] at hv
        · exact hi
      · exact fun hapart other ho => hapart other (mem_works_of_next hn ho)
    · intro frame hr value hv
      rw [data_next hn] at hv
      exact h.kept frame ((resolved_cons_of_not hnot).1 hr) value hv
  | @graft work rest hn hd =>
    refine ⟨fun pending hp => h.owned_graft hn hd hp, ?_, ?_⟩
    · intro frame hr child hc hcomp hname indices slot value ht hv
      rw [graft_state, State.graft_data, data_next hn] at hv
      exact h.held_graft hk hsound hn hd hr hc hcomp hname ht hv
    · intro frame hr value hv
      rw [graft_state, State.graft_data, data_next hn] at hv
      exact h.kept_graft hsound hn hd hr hv
  | @drain fuel outcomes world hn hp hs hd =>
    have hl := length_outcomes hd
    have hnot : ∀ frame, ¬ Resolves m frame := by
      rintro frame ⟨⟨rest, hr⟩, -⟩
      simp [hn] at hr
    refine ⟨?_, ?_, ?_⟩
    · intro pending hp
      rw [waiting_drained hn hl world] at hp
      exact (h.owned pending hp).cons
    · intro frame hr child hc hcomp hname indices slot value ht hv
      refine (h.held frame ((resolved_cons_of_not hnot).1 hr) child hc hcomp hname indices slot
        value ht hv).mono (fun _ hr => hr.cons) (fun _ hj => hj.cons) ?_ ?_
      · intro inner hi
        rw [works_of_next?_eq_none hn] at hi
        obtain ⟨_, -, he⟩ := List.mem_map.1 hi
        cases he
      · intro hapart other ho
        have hpaths := map_works_drained (f := Work.path) (fun _ _ => rfl) hn hl world
        obtain ⟨task, htask, he⟩ := List.mem_map.1 (hpaths ▸ List.mem_map_of_mem ho)
        exact he ▸ hapart task htask
    · intro frame hr value hv
      exact h.kept frame ((resolved_cons_of_not hnot).1 hr) value hv

end

section
variable {setting : Setting W O C T} {tree : SelectionTree (Definition W O C T)} {root : O}
  {world : W} {past : List (Moment W O C T)} {m : Moment W O C T}

/-- At each moment of an execution slots with sub-selections hold what they should, and objects keep
their keys. -/
theorem Reaches.composed (hk : tree.root.KeysDistinct)
    (h : Reaches setting (.start root tree world) past m) : Composed setting past m := by
  induction h with
  | start =>
    refine ⟨?_, ?_, ?_⟩
    · intro pending hp
      cases hp
    · intro frame hr
      simp [Resolved] at hr
    · intro frame hr
      simp [Resolved] at hr
  | move hr hm ih => exact ih.effect hk (hr.sound hk) ((hr.sound hk).effect hk hm)

/-- The object of the root. -/
def rootFrame (tree : SelectionTree (Definition W O C T)) (root : O) : Frame W O C T :=
  ⟨[], .object (.host root), tree.root.owner, tree.root⟩

/-- The root is resolved first. -/
theorem Reaches.root_resolved (h : Reaches setting (.start root tree world) past m) :
    m = .start root tree world ∨ Resolved past (rootFrame tree root) := by
  induction h with
  | start => exact .inl rfl
  | move _ _ ih =>
    rcases ih with rfl | hr
    · exact .inr (resolved_cons.2 (.inl ⟨⟨_, rfl⟩, rfl⟩))
    · exact .inr hr.cons

/-- Where no object is queued, the slots of fields with sub-selections conform. -/
theorem Composed.conforms (h : Composed setting past m)
    (hqueue : ∀ frame, Work.object frame ∉ m.works) {frame : Frame W O C T}
    (hr : Resolved past frame) {child : Node (Definition W O C T)}
    (hc : child ∈ Piece.included setting frame) (hcomp : child.isComposite)
    (hname : child.isTypename = false) (indices : List Nat) {slot : TypeRef} {value : Json}
    (ht : child.type.slot? indices = some slot)
    (hv : m.state.data.at? (frame.path ++ .key child.key :: indices.map .index) = some value) :
    Conforms setting past (Strayed setting past) child slot
      (frame.path ++ .key child.key :: indices.map .index) value := by
  -- By induction on the size of the value: the items of a list, and the fields of an object.
  induction hsize : sizeOf value using Nat.strongRecOn generalizing frame child indices slot
    value with
  | ind size ih =>
    subst hsize
    cases h.held frame hr child hc hcomp hname indices slot value ht hv with
    | null => exact .null
    | array hitem =>
      rename_i items
      obtain ⟨item, hitem⟩ := Option.isSome_iff_exists.1 hitem
      refine .list hitem ?_
      intro i inner hi
      have hchild : (Json.array items).child? (.index i) = some inner := hi
      have hpath : frame.path ++ .key child.key :: (indices ++ [i]).map .index
          = (frame.path ++ .key child.key :: indices.map .index) ++ [.index i] := by simp
      rw [← hpath]
      refine ih _ (Json.sizeOf_lt_of_child? hchild) hr hc hcomp hname (indices ++ [i]) ?_ ?_ rfl
      · rw [TypeRef.slot?_append, ht]
        simp [TypeRef.slot?, hitem]
      · rw [hpath, Json.at?_append_of_eq hv, Json.at?_cons, hchild]
        simp
    | queued hw => exact absurd hw (hqueue _)
    | @resolved inner _ hr' ha hlist =>
      rcases h.kept inner hr' value (ha.path_eq ▸ hv) with ⟨rfl, -⟩ | ⟨fields, rfl, hkeys⟩
      · exact .null
      · refine .object hr' ha hlist hkeys ?_
        intro grandchild hg hcomp' hname' part hpart
        have hchild : (Json.object fields).child? (.key grandchild.key) = some part := hpart
        rw [← ha.path_eq]
        refine ih _ (Json.sizeOf_lt_of_child? hchild) hr' hg hcomp' hname' [] rfl ?_ rfl
        rw [ha.path_eq]
        show m.state.data.at? (_ ++ [.key grandchild.key]) = some part
        rw [Json.at?_append_of_eq hv, Json.at?_cons, hchild]
        simp
    | raw hs hn => exact .raw hs hn

/-- An execution that ends has come to a moment where only tasks are left, and answers with the
data of that moment. -/
theorem execute_reaches (hk : tree.root.KeysDistinct) {fuel : Nat} {answer : Response × W}
    (h : execute setting tree root fuel world = some answer) :
    ∃ past last, Reaches setting (.start root tree world) past last ∧ last.next? = none
      ∧ answer.1.data = some last.state.data := by
  have h : execute (setting.limited setting.registry.configuration.maxDrainSteps) tree root fuel
      world = some answer := h
  obtain ⟨steps, state, -, -, hs, hl, -, -, hd, -, -⟩ := execute_halts hk h
  obtain ⟨⟨past, hr⟩, hf⟩ := hs.reaches hk _ hl
  exact ⟨past, _, hr, by simp [Moment.next?, hf], hd⟩

end

/-- The data of every execution is an object with exactly the keys that are included for the root,
and below it every field with a sub-selection conforms: no key is there that the query did not
select, but in JSON that strayed. -/
theorem execute_conforms {setting : Setting W O C T} {tree : SelectionTree (Definition W O C T)}
    (hk : tree.root.KeysDistinct) {root : O} {fuel : Nat} {world : W} {answer : Response × W}
    (h : execute setting tree root fuel world = some answer) :
    ∃ past last fields, Reaches setting (.start root tree world) past last
      ∧ answer.1.data = some (.object fields)
      ∧ fields.map Prod.fst = (Piece.included setting (rootFrame tree root)).map Node.key
      ∧ ∀ child ∈ Piece.included setting (rootFrame tree root), child.isComposite →
        child.isTypename = false → ∀ value, fields.lookup child.key = some value →
          Conforms setting past (Strayed setting past) child child.type [.key child.key] value := by
  obtain ⟨past, last, hr, hn, hd⟩ := execute_reaches hk h
  have hcomposed := hr.composed hk
  have hroot : Resolved past (rootFrame tree root) := by
    refine hr.root_resolved.resolve_left ?_
    rintro rfl
    cases hn
  have hqueue : ∀ frame, Work.object frame ∉ last.works := by
    intro frame hw
    rw [works_of_next?_eq_none hn] at hw
    obtain ⟨_, -, he⟩ := List.mem_map.1 hw
    cases he
  have hdata : last.state.data.at? (rootFrame tree root).path = some last.state.data := by
    simp [rootFrame]
  rcases hcomposed.kept _ hroot _ hdata with ⟨-, connection, hconn⟩ | ⟨fields, he, hkeys⟩
  · cases hconn
  · refine ⟨past, last, fields, hr, he ▸ hd, hkeys, ?_⟩
    intro child hc hcomp hname value hv
    refine hcomposed.conforms hqueue hroot hc hcomp hname [] rfl ?_
    show last.state.data.at? [.key child.key] = some value
    rw [he, Json.at?_cons]
    show (fields.lookup child.key).bind _ = some value
    simp [hv]

/-- A resolver that answers with some JSON. -/
def petDefinition (answer : Json) : Definition Unit Unit Unit Unit :=
  ⟨.default "Query" "pet", { strategy := .custom fun _ _ => pure (.ok (.value answer)) }⟩

/-- A field with a sub-selection and that resolver. -/
def petField (answer : Json) : Node (Definition Unit Unit Unit Unit) :=
  { key := "pet"
    name := "pet"
    owner := "Query"
    type := .named "Pet"
    isComposite := true
    occurrences := []
    definitions := [petDefinition answer]
    buckets := [⟨"Pet", [.ofField ⟨1, none, "name", [], [], "Pet", .named "String"⟩ false]⟩] }

/-- The selection of that field. -/
def petTree (answer : Json) : SelectionTree (Definition Unit Unit Unit Unit) :=
  ⟨.query, { Node.root "Query" with buckets := [⟨"Query", [petField answer]⟩] }⟩

/-- No two nodes of the tree share a key in one object, whatever the answer is. -/
theorem petTree_keysDistinct (answer : Json) : (petTree answer).root.KeysDistinct := by
  have hpet : (petField answer).KeysDistinct :=
    Node.keysDistinct_of_bucket rfl (by simp) fun child hc => by
      rw [List.mem_singleton.1 hc]
      exact Node.keysDistinct_of_leaf rfl
  exact Node.keysDistinct_of_bucket rfl (by simp) (by simpa using hpet)

/-- Of an object only what is selected gets into the response. -/
theorem execute_conforms_petTree :
    ∃ answer, execute emptySetting (petTree (.object [("secret", .null)])) () 1 ()
        = some (answer, ())
      ∧ answer.data = some (.object [("pet", .object [("name", .null)])])
      ∧ ∃ past, Conforms emptySetting past (Strayed emptySetting past)
        (petField (.object [("secret", .null)])) (.named "Pet") [.key "pet"]
        (.object [("name", .null)]) := by
  have hrun : execute emptySetting (petTree (.object [("secret", .null)])) () 1 ()
      = some _ := rfl
  obtain ⟨past, -, fields, -, hd, -, hc⟩ := execute_conforms (petTree_keysDistinct _) hrun
  obtain rfl : [("pet", Json.object [("name", .null)])] = fields :=
    Json.object.inj (Option.some.inj hd)
  exact ⟨_, rfl, rfl, past, hc (petField _) (List.mem_singleton.2 rfl) rfl rfl _ rfl⟩

/-- A list where the type of the field is none gets into the response as it is, with keys that
nothing selects. -/
theorem execute_conforms_not :
    ∃ answer, execute emptySetting (petTree (.array [.object [("secret", .null)]])) () 1 ()
        = some (answer, ())
      ∧ answer.data = some (.object [("pet", .array [.object [("secret", .null)]])])
      ∧ ∀ past, ¬ Conforms emptySetting past (fun _ _ => False)
        (petField (.array [.object [("secret", .null)]])) (.named "Pet") [.key "pet"]
        (.array [.object [("secret", .null)]]) := by
  refine ⟨_, rfl, rfl, ?_⟩
  intro past h
  cases h with
  | list ht => cases ht
  | raw hs => exact hs

end Execution

end QueryEngine
