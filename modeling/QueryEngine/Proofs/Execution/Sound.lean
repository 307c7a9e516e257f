import QueryEngine.Proofs.Execution.Moment

/-!
# What holds at every moment

`Sound` is what every moment of an execution satisfies, whatever the resolvers, the tasks and the
operations on pages do: the marks are in order, all errors belong to fields and have codes, nothing
is resolved twice, and each slot of a resolved object that must not hold null does so only under an
error or a task. One move keeps it (`Sound.move`), so it holds at all moments (`Reaches.sound`).
-/

namespace QueryEngine

/-- Taking indices one after the other. -/
theorem TypeRef.slot?_append (type : TypeRef) (a b : List Nat) :
    type.slot? (a ++ b) = (type.slot? a).bind (·.slot? b) := by
  induction a generalizing type with
  | nil => rfl
  | cons i rest ih =>
    simp only [List.cons_append, slot?]
    cases type.item? with
    | none => rfl
    | some item => simp [ih]

/-- The last key of a path cuts it in one way only. -/
theorem Path.eq_of_append_key {a b : Path} {k l : String} {i j : List Nat}
    (h : a ++ .key k :: i.map .index = b ++ .key l :: j.map .index) : a = b ∧ k = l ∧ i = j := by
  have hnot : ∀ {i : List Nat} {c : Path} {k l : String} {j : List Nat},
      i.map Segment.index ≠ c ++ .key l :: j.map .index := by
    intro i c k l j he
    have hm : Segment.key l ∈ i.map Segment.index := by rw [he]; simp
    simp at hm
  rcases List.append_eq_append_iff.1 h with ⟨c, hb, he⟩ | ⟨c, ha, he⟩
  · cases c with
    | nil =>
      obtain ⟨hk, hij⟩ := List.cons.inj he
      exact ⟨by simpa using hb.symm, Segment.key.inj hk,
        List.map_injective_iff.2 (fun _ _ => Segment.index.inj) hij⟩
    | cons s c => exact absurd (List.cons.inj he).2 (hnot (k := k))
  · cases c with
    | nil =>
      obtain ⟨hk, hij⟩ := List.cons.inj he
      exact ⟨by simpa using ha, (Segment.key.inj hk).symm,
        (List.map_injective_iff.2 (fun _ _ => Segment.index.inj) hij).symm⟩
    | cons s c => exact absurd (List.cons.inj he).2 (hnot (k := k))

namespace Execution

open Moment

variable {W O C T : Type}

/-- What every moment of an execution satisfies, after the moments that were passed. -/
structure Sound (setting : Setting W O C T) (root : Node (Definition W O C T))
    (past : List (Moment W O C T)) (m : Moment W O C T) : Prop where
  marked : Marked m.state.data (Nulled setting past) m.marks
  labelled : ∀ error ∈ m.state.errors, Labelled error
  within : ∀ work ∈ m.works, Node.Within root work.node
  resolved : ∀ frame, Resolved past frame → Node.Within root frame.node
  /-- No object that was resolved lies within a slot that is open. -/
  fresh : ∀ work ∈ m.works, ∀ frame, Resolved past frame → ¬ work.path <+: frame.path
  once : ∀ frame other, Resolved past frame → Resolved past other → frame.path = other.path →
    frame = other
  typed : ∀ pending ∈ m.waiting, Slot setting past pending.path pending.type
  accounted : ∀ path type, Slot setting past path type → type.isNonNull →
    m.state.data.at? path = some .null → path ∈ m.nulls

/-- The fields that are included in an object have distinct keys. -/
theorem included_nodup {setting : Setting W O C T} {root : Node (Definition W O C T)}
    (hk : root.KeysDistinct) {frame : Frame W O C T} (hw : Node.Within root frame.node) :
    ((Piece.included setting frame).map Node.key).Nodup := by
  unfold Piece.included
  cases hc : frame.node.children? frame.concrete with
  | none => simp
  | some children =>
    exact ((hk.children hw hc).sublist (List.Sublist.map _ List.filter_sublist))

/-! ## History -/

section
variable {setting : Setting W O C T} {past : List (Moment W O C T)} {m rest : Moment W O C T}

/-- An object was resolved if it was at the last moment passed or before. -/
theorem resolved_cons {frame : Frame W O C T} :
    Resolved (m :: past) frame ↔ Resolves m frame ∨ Resolved past frame := by
  simp [Resolved]

/-- What was resolved stays resolved. -/
theorem Resolved.cons {frame : Frame W O C T} (h : Resolved past frame) :
    Resolved (m :: past) frame :=
  resolved_cons.2 (.inr h)

/-- A slot of a field stays one. -/
theorem Slot.cons {path : Path} {type : TypeRef} (h : Slot setting past path type) :
    Slot setting (m :: past) path type := by
  obtain ⟨frame, hr, child, hc, indices, hp, ht⟩ := h
  exact ⟨frame, hr.cons, child, hc, indices, hp, ht⟩

/-- A moment where no object that exists is next adds nothing to the history. -/
theorem resolved_cons_of_not {frame : Frame W O C T} (h : ∀ frame, ¬ Resolves m frame) :
    Resolved (m :: past) frame ↔ Resolved past frame := by
  simp [resolved_cons, h]

/-- A moment at which no object is resolved adds no slot. -/
theorem slot_cons_of_not {path : Path} {type : TypeRef} (h : ∀ frame, ¬ Resolves m frame) :
    Slot setting (m :: past) path type ↔ Slot setting past path type := by
  simp only [Slot, resolved_cons_of_not h]

/-- A moment at which no object is resolved makes no connection null. -/
theorem nulled_cons_of_not (h : ∀ frame, ¬ Resolves m frame) :
    Nulled setting (m :: past) = Nulled setting past := by
  funext path
  simp [Nulled, h]

/-- Nothing is resolved where the slot of the next work is gone. -/
theorem not_resolves_of_none {work : Work W O C T} (h : m.next? = some (work, rest))
    (hd : m.state.data.at? work.path = none) (frame : Frame W O C T) : ¬ Resolves m frame := by
  rintro ⟨⟨rest', hn⟩, hs⟩
  obtain rfl : work = .object frame := by
    rw [h] at hn
    exact (Prod.mk.inj (Option.some.inj hn)).1
  simp [Work.path] at hd
  simp [hd] at hs

/-- Nothing but an object that is next is resolved. -/
theorem resolves_iff {work : Work W O C T} (h : m.next? = some (work, rest))
    (hd : (m.state.data.at? work.path).isSome) (frame : Frame W O C T) :
    Resolves m frame ↔ work = .object frame := by
  constructor
  · rintro ⟨⟨rest', hn⟩, -⟩
    rw [h] at hn
    exact (Prod.mk.inj (Option.some.inj hn)).1
  · rintro rfl
    exact ⟨⟨rest, h⟩, hd⟩

end

/-! ## One move -/

section
variable {setting : Setting W O C T} {root : Node (Definition W O C T)}
  {past : List (Moment W O C T)} {m rest : Moment W O C T} {work : Work W O C T}

/-- Work is open in no slot that became null because a field failed its connection. -/
theorem Sound.not_nulled (h : Sound setting root past m) (hw : work ∈ m.works) :
    ¬ Nulled setting past work.path := by
  rintro ⟨earlier, he, frame, hr, hp, -⟩
  exact h.fresh work hw frame ⟨earlier, he, hr⟩ (hp ▸ List.prefix_refl _)

/-- The next work is done on a slot that holds its mark or is gone. -/
theorem Sound.at?_next (h : Sound setting root past m) (hn : m.next? = some (work, rest)) :
    m.state.data.at? work.path = none
      ∨ m.state.data.at? work.path = some work.mark.2 := by
  have hm : work.mark ∈ m.marks := (marks_next hn).mem_iff.2 (List.mem_cons_self ..)
  rcases h.marked.holds _ hm with hv | hg
  · exact .inr (by simpa using hv)
  · exact .inl (by simpa using hg.at?_eq_none)

/-- The marks with that of the next work in front. -/
theorem Sound.marked_next (h : Sound setting root past m) (hn : m.next? = some (work, rest)) :
    Marked m.state.data (Nulled setting past) ((work.path, work.mark.2) :: rest.marks) := by
  have he : work.mark = (work.path, work.mark.2) := Prod.ext work.mark_fst rfl
  exact he ▸ h.marked.perm (marks_next hn)

/-- What is next is open. -/
theorem mem_works_next (hn : m.next? = some (work, rest)) : work ∈ m.works := by
  rw [works_next hn]
  exact List.mem_cons_self ..

/-- What is open after what is next was open before. -/
theorem mem_works_of_next (hn : m.next? = some (work, rest)) {other : Work W O C T}
    (ho : other ∈ rest.works) : other ∈ m.works := by
  rw [works_next hn]
  exact List.mem_cons_of_mem _ ho

/-- The other marks lie apart from the slot of the next work, if the slot exists. -/
theorem Sound.apart (h : Sound setting root past m) (hn : m.next? = some (work, rest))
    (hd : (m.state.data.at? work.path).isSome) {mark : Mark} (hm : mark ∈ rest.marks) :
    Path.Apart work.path mark.1 :=
  (h.marked_next hn).apart hd (h.not_nulled (mem_works_next hn)) hm

/-- The other work lies apart from the slot of the next work, if the slot exists. -/
theorem Sound.apart_work (h : Sound setting root past m) (hn : m.next? = some (work, rest))
    (hd : (m.state.data.at? work.path).isSome) {other : Work W O C T} (ho : other ∈ rest.works) :
    Path.Apart work.path other.path := by
  have hmark : other.mark ∈ rest.marks := List.mem_append_right _ (List.mem_map_of_mem ho)
  simpa using h.apart hn hd hmark

/-- An object that is next has one field for each of its keys. -/
theorem Sound.keys_next (h : Sound setting root past m) (hk : root.KeysDistinct)
    (hn : m.next? = some (work, rest)) (frame : Frame W O C T) (hw : work = .object frame) :
    ((Piece.included setting frame).map Node.key).Nodup := by
  subst hw
  exact included_nodup hk (h.within _ (mem_works_next hn))

/-- Leaving out work on a slot that is gone. -/
theorem Sound.skip (h : Sound setting root past m) (hn : m.next? = some (work, rest))
    (hd : m.state.data.at? work.path = none) : Sound setting root (m :: past) rest := by
  have hnot := not_resolves_of_none hn hd
  refine
    { marked := ?_
      labelled := by rw [errors_next hn]; exact h.labelled
      within := fun other ho => h.within other (mem_works_of_next hn ho)
      resolved := fun frame hr => h.resolved frame ((resolved_cons_of_not hnot).1 hr)
      fresh := fun other ho frame hr =>
        h.fresh other (mem_works_of_next hn ho) frame ((resolved_cons_of_not hnot).1 hr)
      once := fun frame other hf ho =>
        h.once frame other ((resolved_cons_of_not hnot).1 hf) ((resolved_cons_of_not hnot).1 ho)
      typed := fun pending hp => (h.typed pending (mem_waiting_next hn hp)).cons
      accounted := ?_ }
  · rw [nulled_cons_of_not hnot, data_next hn]
    exact (h.marked_next hn).drop (h.not_nulled (mem_works_next hn))
  · intro path type hs ht hnull
    rw [data_next hn] at hnull
    rcases mem_nulls_next hn (h.accounted path type ((slot_cons_of_not hnot).1 hs) ht hnull)
      with rfl | hmem
    · simp [hd] at hnull
    · exact hmem

/-- A slot within an open one belongs to the same field: only indices lead from one to the
other. -/
theorem Sound.slot_within (h : Sound setting root past m) (hw : work ∈ m.works) {tail : Path}
    {type : TypeRef} (hs : Slot setting past (work.path ++ tail) type) :
    ∃ frame, Resolved past frame ∧ ∃ child ∈ Piece.included setting frame,
      ∃ before after : List Nat, work.path = frame.path ++ .key child.key :: before.map .index
        ∧ tail = after.map .index ∧ child.type.slot? (before ++ after) = some type := by
  obtain ⟨frame, hr, child, hc, indices, hp, ht⟩ := hs
  have hfresh := h.fresh work hw frame hr
  rcases List.append_eq_append_iff.1 hp with ⟨c, hf, -⟩ | ⟨c, hq, he⟩
  · exact absurd ⟨c, hf.symm⟩ hfresh
  · cases c with
    | nil => exact absurd ⟨[], by simpa using hq⟩ hfresh
    | cons s c =>
      obtain ⟨rfl, hi⟩ := List.cons.inj he
      obtain ⟨before, after, rfl, rfl, rfl⟩ := List.map_eq_append_iff.1 hi
      exact ⟨frame, hr, child, hc, before, after, hq, rfl, ht⟩

/-- A slot within that of a task has the type that the indices give it. -/
theorem Sound.slot_of_waiting (h : Sound setting root past m) (hk : root.KeysDistinct)
    {pending : Pending W O C T} (hp : pending ∈ m.waiting) (hw : work ∈ m.works)
    (hpath : work.path = pending.path) {tail : Path} {type : TypeRef}
    (hs : Slot setting past (pending.path ++ tail) type) :
    ∃ indices : List Nat, tail = indices.map .index
      ∧ pending.type.slot? indices = some type := by
  obtain ⟨frame, hr, child, hc, before, after, hq, rfl, ht⟩ :=
    h.slot_within hw (by rwa [hpath])
  obtain ⟨other, hr', child', hc', indices, hq', ht'⟩ := h.typed pending hp
  obtain ⟨hpe, hke, rfl⟩ := Path.eq_of_append_key (hq.symm.trans (hpath.trans hq'))
  obtain rfl := h.once frame other hr hr' hpe
  obtain rfl : child = child' :=
    List.inj_on_of_nodup_map (included_nodup hk (h.resolved frame hr)) hc hc' hke
  rw [TypeRef.slot?_append, ht'] at ht
  exact ⟨after, rfl, ht⟩

/-- What is nulled now, if the slot of the next work exists. -/
theorem nulled_cons_of_next (hn : m.next? = some (work, rest))
    (hk : ∀ frame, work = .object frame → ((Piece.included setting frame).map Node.key).Nodup)
    (hd : m.state.data.at? work.path = some work.mark.2) :
    Nulled setting (m :: past) = fun path =>
      Nulled setting past path ∨ work.fails setting m.state.world ∧ path = work.path := by
  have hs : (m.state.data.at? work.path).isSome := by simp [hd]
  have hnow : ∀ frame, work = .object frame →
      ((resolveFrame setting frame m.state).data.at? frame.path = some .null
        ↔ Piece.fails setting frame m.state.world) := by
    rintro frame rfl
    have hs : (m.state.data.at? frame.path).isSome := hs
    rw [resolveFrame_eq_graft setting frame (hk frame rfl) hd, State.graft_data,
      Json.at?_fill_self hs, Option.some_inj, Piece.value_ofFrame_eq_null_iff]
  funext path
  refine propext ?_
  simp only [Nulled, List.exists_mem_cons_iff, resolves_iff hn hs]
  rw [or_comm]
  refine or_congr_right ⟨?_, ?_⟩
  · rintro ⟨frame, rfl, rfl, -, hnull⟩
    exact ⟨(hnow frame rfl).1 hnull, rfl⟩
  · rintro ⟨hf, rfl⟩
    cases work with
    | object frame =>
      exact ⟨frame, rfl, rfl, Piece.connection_of_fails hf, (hnow frame rfl).2 hf⟩
    | task pending | outcome pending result => cases hf

/-- The tasks that doing work leaves fill slots of fields that were resolved. -/
theorem Sound.typed_piece (h : Sound setting root past m) (hn : m.next? = some (work, rest))
    (hs : (m.state.data.at? work.path).isSome) {pending : Pending W O C T}
    (hp : pending ∈ (work.piece setting m.state.world).1.pending) :
    Slot setting (m :: past) pending.path pending.type := by
  cases work with
  | object frame =>
    obtain ⟨child, hc, -, indices, hpath, ht⟩ := Piece.mem_pending_ofFrame hp
    have hr : Resolved (m :: past) frame :=
      resolved_cons.2 (.inl ((resolves_iff hn hs frame).2 rfl))
    exact ⟨frame, hr, child, hc, indices, hpath, ht⟩
  | task other => exact absurd rfl (next_ne_task hn other)
  | outcome other result =>
    have hother : other ∈ m.waiting := by
      rcases next?_eq_some hn with ⟨_, _, hw, hd, _⟩ | ⟨_, hw, _⟩
      · cases hw; simp [waiting, hd]
      · cases hw
    obtain ⟨frame, hr, child, hc, before, hpath, ht⟩ := h.typed other hother
    obtain ⟨-, after, hpath', ht'⟩ :=
      (Piece.fits_ofOutcome setting other result m.state.world).pending pending hp
    refine ⟨frame, hr.cons, child, hc, before ++ after, ?_, ?_⟩
    · rw [hpath', hpath]; simp
    · rw [TypeRef.slot?_append, ht, Option.bind_some, ht']

/-- A slot within that of the next work, if it holds null after it, does so under an error or a
task. -/
theorem Sound.accounted_piece (h : Sound setting root past m) (hk : root.KeysDistinct)
    (hn : m.next? = some (work, rest)) (hs : (m.state.data.at? work.path).isSome) {tail : Path}
    {type : TypeRef} (hslot : Slot setting (m :: past) (work.path ++ tail) type)
    (ht : type.isNonNull)
    (hnull : (work.piece setting m.state.world).1.value.at? tail = some .null) :
    work.path ++ tail ∈ (work.piece setting m.state.world).1.nulls := by
  have hw := mem_works_next hn
  cases work with
  | object frame =>
    by_cases hf : Piece.fails setting frame m.state.world
    · have hv : (Piece.ofFrame setting frame m.state.world).1.value = .null :=
        Piece.value_ofFrame_eq_null_iff.2 hf
      have hnull : (Piece.ofFrame setting frame m.state.world).1.value.at? tail = some .null :=
        hnull
      obtain rfl := eq_nil_of_at?_isSome (fun s => by rw [hv, Json.child?_null s])
        (Option.isSome_iff_exists.2 ⟨_, hnull⟩)
      simpa [Work.path, Work.piece] using Piece.mem_nulls_of_fails hf
    · obtain ⟨other, hr, child, hc, indices, hpath, hty⟩ := hslot
      rcases resolved_cons.1 hr with hnow | hr
      · -- The object that is resolved now: the slots of its own fields.
        cases (resolves_iff hn hs other).1 hnow
        obtain rfl : tail = .key child.key :: indices.map .index :=
          List.append_cancel_left hpath
        exact Piece.accounted_ofFrame (included_nodup hk (h.within _ hw)) hf hc hty ht hnull
      · -- The slot of a field that the object is the value of: below it there are no positions.
        obtain ⟨-, -, -, -, -, after, -, rfl, -⟩ :=
          h.slot_within hw ⟨other, hr, child, hc, indices, hpath, hty⟩
        cases after with
        | nil => exact absurd (Piece.value_ofFrame_eq_null_iff.1 (Option.some.inj hnull)) hf
        | cons i after =>
          rw [List.map_cons, Json.at?_cons] at hnull
          simp [Work.piece, Piece.child?_value_ofFrame_index] at hnull
  | task other => exact absurd rfl (next_ne_task hn other)
  | outcome other result =>
    have hother : other ∈ m.waiting := by
      rcases next?_eq_some hn with ⟨_, _, he, hd, _⟩ | ⟨_, he, _⟩
      · cases he; simp [waiting, hd]
      · cases he
    have hnot : ∀ frame, ¬ Resolves m frame := by
      intro frame hr
      cases (resolves_iff hn hs frame).1 hr
    obtain ⟨indices, rfl, hty⟩ :=
      h.slot_of_waiting hk hother hw rfl ((slot_cons_of_not hnot).1 hslot)
    exact (Piece.fits_ofOutcome setting other result m.state.world).accounted indices type hty ht
      hnull

/-- An object that was resolved at the end of the next work is the work, or it was before. -/
theorem eq_or_resolved_of_cons (hn : m.next? = some (work, rest))
    (hs : (m.state.data.at? work.path).isSome) {frame : Frame W O C T}
    (hr : Resolved (m :: past) frame) : work = .object frame ∨ Resolved past frame :=
  (resolved_cons.1 hr).imp_left (resolves_iff hn hs frame).1

/-- The work that the next work leaves, and what was open beside it, is within no object that was
resolved. -/
theorem Sound.fresh_graft (h : Sound setting root past m) (hn : m.next? = some (work, rest))
    (hs : (m.state.data.at? work.path).isSome) {other : Work W O C T}
    (ho : other ∈ (rest.graft work.path (work.piece setting m.state.world)).works)
    {frame : Frame W O C T} (hr : Resolved (m :: past) frame) : ¬ other.path <+: frame.path := by
  intro hwithin
  have hw := mem_works_next hn
  have hworks := works_graft rest work.path (work.piece setting m.state.world)
  rcases List.mem_append.1 (hworks.mem_iff.1 ho) with hold | hnew
  · rcases eq_or_resolved_of_cons hn hs hr with rfl | hr
    · exact (h.apart_work hn hs hold).2 hwithin
    · exact h.fresh other (mem_works_of_next hn hold) frame hr hwithin
  · obtain ⟨tail, ht, hne⟩ := Work.path_of_mem_works hnew
    rcases eq_or_resolved_of_cons hn hs hr with rfl | hr
    · have hlen := hwithin.length_le
      rw [ht, List.length_append] at hlen
      have hnil : tail.length = 0 := by
        simp only [Work.path] at hlen
        omega
      exact hne ⟨frame, rfl⟩ (List.length_eq_zero_iff.1 hnil)
    · exact h.fresh work hw frame hr ((ht ▸ List.prefix_append ..).trans hwithin)

/-- No object is resolved where another one was. -/
theorem Sound.once_graft (h : Sound setting root past m) (hn : m.next? = some (work, rest))
    (hs : (m.state.data.at? work.path).isSome) {frame other : Frame W O C T}
    (hf : Resolved (m :: past) frame) (ho : Resolved (m :: past) other)
    (hpath : frame.path = other.path) : frame = other := by
  have hnew : ∀ {f g : Frame W O C T}, work = .object f → Resolved past g → f.path ≠ g.path := by
    rintro f g rfl hg he
    exact h.fresh _ (mem_works_next hn) g hg (by simp [Work.path, he])
  rcases eq_or_resolved_of_cons hn hs hf with hf | hf <;>
    rcases eq_or_resolved_of_cons hn hs ho with ho | ho
  · exact Work.object.inj (hf.symm.trans ho)
  · exact absurd hpath (hnew hf ho)
  · exact absurd hpath.symm (hnew ho hf)
  · exact h.once frame other hf ho hpath

/-- A slot that holds null after the next work does so under an error or a task. -/
theorem Sound.accounted_graft (h : Sound setting root past m) (hk : root.KeysDistinct)
    (hn : m.next? = some (work, rest)) (hs : (m.state.data.at? work.path).isSome) {path : Path}
    {type : TypeRef} (hslot : Slot setting (m :: past) path type) (ht : type.isNonNull)
    (hnull : (m.state.data.fill work.path (work.piece setting m.state.world).1.value).at? path
      = some .null) :
    path ∈ (rest.graft work.path (work.piece setting m.state.world)).nulls := by
  rw [mem_nulls_graft]
  by_cases hwithin : work.path <+: path
  · obtain ⟨tail, rfl⟩ := hwithin
    rw [Json.at?_fill_append hs] at hnull
    exact .inr (h.accounted_piece hk hn hs hslot ht hnull)
  · -- The slot is none of the resolved object and was there before.
    have hold : Slot setting past path type := by
      obtain ⟨frame, hr, child, hc, indices, hpath, hty⟩ := hslot
      rcases eq_or_resolved_of_cons hn hs hr with rfl | hr
      · exact absurd ⟨_, hpath.symm⟩ hwithin
      · exact ⟨frame, hr, child, hc, indices, hpath, hty⟩
    have hap : Path.Apart work.path path :=
      ⟨hwithin, fun hp => hwithin (prefix_of_at?_fill_eq_null hs hp hnull)⟩
    rw [Json.at?_fill_of_apart hap] at hnull
    rcases mem_nulls_next hn (h.accounted path type hold ht hnull) with rfl | hmem
    · exact absurd (List.prefix_refl _) hwithin
    · exact .inl hmem

/-- Doing work on a slot that exists. -/
theorem Sound.graft (h : Sound setting root past m) (hk : root.KeysDistinct)
    (hn : m.next? = some (work, rest)) (hd : m.state.data.at? work.path = some work.mark.2) :
    Sound setting root (m :: past)
      (rest.graft work.path (work.piece setting m.state.world)) := by
  have hs : (m.state.data.at? work.path).isSome := by simp [hd]
  have hw := mem_works_next hn
  have hkeys := h.keys_next hk hn
  refine
    { marked := ?_
      labelled := ?_
      within := ?_
      resolved := ?_
      fresh := fun other ho frame hr => h.fresh_graft hn hs ho hr
      once := fun frame other hf ho hpath => h.once_graft hn hs hf ho hpath
      typed := ?_
      accounted := ?_ }
  · rw [nulled_cons_of_next hn hkeys hd, graft_state, State.graft_data, data_next hn]
    exact ((h.marked_next hn).graft hs (h.not_nulled hw) (work.tidy_piece hkeys _)).perm
      (marks_graft ..).symm
  · intro error he
    rcases List.mem_append.1 he with he | he
    · exact h.labelled error (errors_next hn ▸ he)
    · exact Work.labelled_piece he
  · intro other ho
    have hworks := works_graft rest work.path (work.piece setting m.state.world)
    rcases List.mem_append.1 (hworks.mem_iff.1 ho) with ho | ho
    · exact h.within other (mem_works_of_next hn ho)
    · exact Work.within_piece (h.within work hw) ho
  · intro frame hr
    rcases eq_or_resolved_of_cons hn hs hr with rfl | hr
    · exact h.within _ hw
    · exact h.resolved frame hr
  · intro pending hp
    rcases mem_waiting_graft.1 hp with hp | hp
    · exact (h.typed pending (mem_waiting_next hn hp)).cons
    · exact h.typed_piece hn hs hp
  · intro path type hslot ht hnull
    rw [graft_state, State.graft_data, data_next hn] at hnull
    exact h.accounted_graft hk hn hs hslot ht hnull

/-- Draining the tasks. -/
theorem Sound.drain (h : Sound setting root past m) (hn : m.next? = none)
    {outcomes : List (Outcome O C T)} (hl : outcomes.length = m.state.pending.length)
    (world : W) : Sound setting root (m :: past) (m.drained outcomes world) := by
  have hnot : ∀ frame, ¬ Resolves m frame := by
    rintro frame ⟨⟨rest, hr⟩, -⟩
    simp [hn] at hr
  have hmarks : (m.drained outcomes world).marks = m.marks := by
    simp only [marks]
    rw [map_works_drained (fun _ _ => rfl) hn hl]
    rfl
  have hwaiting := waiting_drained hn hl world
  have hnulls : (m.drained outcomes world).nulls = m.nulls := by
    simp only [nulls, hwaiting]
    rfl
  have hwork : ∀ work ∈ (m.drained outcomes world).works, ∃ other ∈ m.works,
      other.path = work.path ∧ other.node = work.node := by
    intro work hw
    have hmap := map_works_drained (f := fun work : Work W O C T => (work.path, work.node))
      (fun _ _ => rfl) hn hl world
    obtain ⟨other, ho, he⟩ := List.mem_map.1 (hmap ▸ List.mem_map_of_mem hw)
    exact ⟨other, ho, (Prod.mk.inj he).1, (Prod.mk.inj he).2⟩
  refine
    { marked := ?_
      labelled := h.labelled
      within := ?_
      resolved := fun frame hr => h.resolved frame ((resolved_cons_of_not hnot).1 hr)
      fresh := ?_
      once := fun frame other hf ho =>
        h.once frame other ((resolved_cons_of_not hnot).1 hf) ((resolved_cons_of_not hnot).1 ho)
      typed := fun pending hp => (h.typed pending (hwaiting ▸ hp)).cons
      accounted := by
        intro path type hs ht hnull
        rw [hnulls]
        exact h.accounted path type ((slot_cons_of_not hnot).1 hs) ht hnull }
  · rw [nulled_cons_of_not hnot, hmarks]
    exact h.marked
  · intro work hw
    obtain ⟨other, ho, -, hnode⟩ := hwork work hw
    exact hnode ▸ h.within other ho
  · intro work hw frame hr
    obtain ⟨other, ho, hpath, -⟩ := hwork work hw
    exact hpath ▸ h.fresh other ho frame ((resolved_cons_of_not hnot).1 hr)

/-- What a move can amount to: work on a slot that is gone is left out, other work grafts its
piece, and otherwise the tasks are drained. -/
inductive Effect (setting : Setting W O C T) (m : Moment W O C T) : Moment W O C T → Prop
  | skip {work : Work W O C T} {rest : Moment W O C T} (hn : m.next? = some (work, rest))
    (hd : m.state.data.at? work.path = none) : Effect setting m rest
  | graft {work : Work W O C T} {rest : Moment W O C T} (hn : m.next? = some (work, rest))
    (hd : m.state.data.at? work.path = some work.mark.2) :
    Effect setting m (rest.graft work.path (work.piece setting m.state.world))
  | drain {fuel : Nat} {outcomes : List (Outcome O C T)} {world : W} (hn : m.next? = none)
    (hp : m.state.pending ≠ []) (hs : stop? setting m.steps m.state.world = none)
    (hd : drain setting fuel m.state = some (.completed outcomes, world)) :
    Effect setting m (m.drained outcomes world)

/-- A move leaves a slot that is gone alone, grafts the piece of some work, or drains the tasks. -/
theorem Sound.effect (h : Sound setting root past m) (hk : root.KeysDistinct)
    {m' : Moment W O C T} (hm : Move setting m m') : Effect setting m m' := by
  cases hm with
  | @work rest work hn =>
    rcases h.at?_next hn with hd | hd
    · rw [run_of_none setting (next_ne_task hn) (by rwa [data_next hn])]
      exact .skip hn hd
    · rw [run_eq_graft setting (h.keys_next hk hn) (by rwa [data_next hn]), world_next hn]
      exact .graft hn hd
  | drain hn hp hs hd => exact .drain hn hp hs hd

/-- Every move keeps it. -/
theorem Sound.move (h : Sound setting root past m) (hk : root.KeysDistinct) {m' : Moment W O C T}
    (hm : Move setting m m') : Sound setting root (m :: past) m' := by
  cases h.effect hk hm with
  | skip hn hd => exact h.skip hn hd
  | graft hn hd => exact h.graft hk hn hd
  | drain hn hp hs hd => exact h.drain hn (length_outcomes hd) _

end

/-- It holds before anything is resolved. -/
theorem sound_start (setting : Setting W O C T) (root : O)
    (tree : SelectionTree (Definition W O C T)) (world : W) :
    Sound setting tree.root [] (Moment.start root tree world) where
  marked :=
    { nodup := by simp [start, State.initial, marks, works, errorMarks]
      bare := by
        intro mark hm s
        have hm : mark ∈ [(([], .object []) : Mark)] := hm
        simp [List.mem_singleton.1 hm]
      holds := by
        intro mark hm
        have hm : mark ∈ [(([], .object []) : Mark)] := hm
        simp [List.mem_singleton.1 hm, start, State.initial]
      lost_mem := fun path => by simp [Nulled] }
  labelled _ h := by cases h
  within work hw := by
    have hw : work ∈ [Work.object ⟨[], .object (.host root), tree.root.owner, tree.root⟩] := hw
    rw [List.mem_singleton.1 hw]
    exact .root
  resolved frame hr := by simp [Resolved] at hr
  fresh work _ frame hr := by simp [Resolved] at hr
  once frame _ hr := by simp [Resolved] at hr
  typed _ h := by cases h
  accounted path type hs := by simp [Slot, Resolved] at hs

/-- It holds at every moment of an execution. -/
theorem Reaches.sound {setting : Setting W O C T} {root : O}
    {tree : SelectionTree (Definition W O C T)} {world : W} (hk : tree.root.KeysDistinct)
    {past : List (Moment W O C T)} {m : Moment W O C T}
    (h : Reaches setting (Moment.start root tree world) past m) :
    Sound setting tree.root past m := by
  induction h with
  | start => exact sound_start ..
  | move _ hm ih => exact ih.move hk hm

end Execution

end QueryEngine
