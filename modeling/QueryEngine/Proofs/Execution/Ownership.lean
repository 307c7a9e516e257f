import QueryEngine.Proofs.Execution.Calls
import QueryEngine.Proofs.Execution.Filled

/-!
# Who owns a slot

What is open at a moment owns its slot alone. The slots of queued objects and waiting tasks lie
apart from one another, also where they are gone; those that exist hold the empty object for an
object and null for a task; and once an object was taken from the queue, its slot is never owned
again (`Ownership`). So whatever is completed finds null in its slot, and what it writes survives:
the only values that change later are the places of queued objects, which are filled with their
fields, or become null if the object is a connection that one of its fields fails (`Survives`).
-/

namespace QueryEngine.Execution

open Moment

variable {W O C T : Type}

/-- The object was taken from the queue. -/
def Taken (past : List (Moment W O C T)) (frame : Frame W O C T) : Prop :=
  ∃ m ∈ past, ∃ rest, m.next? = some (.object frame, rest)

/-- How the slots of what is open lie, and what they hold. -/
structure Ownership (past : List (Moment W O C T)) (m : Moment W O C T) : Prop where
  /-- No slot that is owned lies within another one. -/
  apart : m.works.Pairwise fun work other => Path.Apart work.path other.path
  waiting : ∀ pending ∈ m.waiting, (m.state.data.at? pending.path).isSome →
    m.state.data.at? pending.path = some .null
  queued : ∀ frame ∈ m.state.frontier, (m.state.data.at? frame.path).isSome →
    m.state.data.at? frame.path = some (.object [])
  /-- Slots that were given up are not owned again, nor is one around them. -/
  released : ∀ frame, Taken past frame → ∀ work ∈ m.works, ¬ work.path <+: frame.path

/-! ## Slots lie apart -/

/-- The work that a piece leaves, unless the object failed, fills slots that lie apart. -/
theorem Piece.Tidy.pairwise_works {path : Path} {piece : Piece W O C T}
    (h : piece.Tidy path False) :
    piece.works.Pairwise fun work other => Path.Apart work.path other.path := by
  have hnodup : (piece.works.map Work.path).Nodup := by
    have hmarks := h.nodup
    rw [Piece.marks_eq, List.map_append, List.map_map] at hmarks
    have hpaths : Prod.fst ∘ Work.mark = (Work.path : Work W O C T → Path) :=
      funext Work.mark_fst
    exact hpaths ▸ (List.nodup_append.1 hmarks).2.1
  have hlive : ∀ work ∈ piece.works, ∃ rest, work.path = path ++ rest
      ∧ piece.value.at? rest = some work.mark.2 := by
    intro work hw
    obtain ⟨rest, hr, hv | hf⟩ := h.holds _ (Piece.mark_mem_marks hw)
    · exact ⟨rest, by simpa using hr, hv⟩
    · exact hf.1.elim
  refine ((List.pairwise_map).1 hnodup).imp_of_mem fun {work other} hw ho hne => ?_
  obtain ⟨rest, hr, hv⟩ := hlive work hw
  obtain ⟨rest', hr', hv'⟩ := hlive other ho
  have hapart := apart_of_at?_eq hv hv' (Piece.bare_of_mem_marks (Piece.mark_mem_marks hw))
    (Piece.bare_of_mem_marks (Piece.mark_mem_marks ho)) fun he => hne (by rw [hr, hr', he])
  simpa [hr, hr', Path.Apart, List.prefix_append_right_inj] using hapart

section
variable {setting : Setting W O C T} {root : Node (Definition W O C T)}
  {past : List (Moment W O C T)} {m next rest : Moment W O C T} {work : Work W O C T}

/-- The work that some work leaves fills slots that lie apart. -/
theorem Work.pairwise_piece
    (hk : ∀ frame, work = .object frame → ((Piece.included setting frame).map Node.key).Nodup)
    (world : W) : (work.piece setting world).1.works.Pairwise
      fun work other => Path.Apart work.path other.path := by
  cases work with
  | object frame =>
    -- A failure leaves the same work, of fields that were resolved before.
    have hparts := Piece.admits_fieldParts setting frame (hk frame rfl) none world
    have htidy : (Piece.gather .object (Piece.fieldParts setting frame
        (Piece.included setting frame) none world).1).Tidy frame.path False := by
      refine Piece.tidy_gather hparts fun part hm => ?_
      obtain ⟨child, -, -, hf⟩ := Piece.fits_of_mem_fieldParts hm
      exact hf.tidy
    have hworks : (Piece.ofFrame setting frame world).1.works = _ := Piece.works_close ..
    exact hworks ▸ htidy.pairwise_works
  | task pending => exact List.pairwise_singleton ..
  | outcome pending result =>
    exact (Piece.fits_ofOutcome setting pending result world).tidy.pairwise_works

/-- Whatever is done, the slots of what is open lie apart. -/
theorem pairwise_effect (h : Sound setting root past m) (hk : root.KeysDistinct)
    (ha : m.works.Pairwise fun work other => Path.Apart work.path other.path)
    (he : Effect setting m next) :
    next.works.Pairwise fun work other => Path.Apart work.path other.path := by
  cases he with
  | skip hn hd =>
    rw [works_next hn] at ha
    exact ha.of_cons
  | @graft work rest hn hd =>
    rw [works_next hn, List.pairwise_cons] at ha
    rw [(works_graft ..).pairwise_iff fun {_ _} => Path.Apart.symm, List.pairwise_append]
    refine ⟨ha.2, Work.pairwise_piece (h.keys_next hk hn) _, fun other ho left hl => ?_⟩
    obtain ⟨tail, htail, -⟩ := Work.path_of_mem_works hl
    rw [htail]
    exact (ha.1 other ho).symm.append_right tail
  | drain hn hp hs hd =>
    rename_i outcomes after
    have hpaths := map_works_drained (f := Work.path) (fun _ _ => rfl) hn (length_outcomes hd) after
    rw [← List.pairwise_map (f := Work.path) (R := Path.Apart), hpaths, List.pairwise_map]
    exact ha

/-- An object was taken if it was at the last moment passed or before. -/
theorem taken_cons {frame : Frame W O C T} :
    Taken (m :: past) frame
      ↔ (∃ rest, m.next? = some (.object frame, rest)) ∨ Taken past frame := by
  simp [Taken]

/-- Slots that were given up are not owned again, and the next object gives up its own. -/
theorem released_effect (ha : m.works.Pairwise fun work other => Path.Apart work.path other.path)
    (hold : ∀ frame, Taken past frame → ∀ work ∈ m.works, ¬ work.path <+: frame.path)
    (he : Effect setting m next) {frame : Frame W O C T} (hf : Taken (m :: past) frame) :
    ∀ work ∈ next.works, ¬ work.path <+: frame.path := by
  cases he with
  | @skip work rest hn hd =>
    intro other ho
    rw [works_next hn, List.pairwise_cons] at ha
    rcases taken_cons.1 hf with ⟨_, hnow⟩ | hf
    · obtain rfl : work = .object frame := (Prod.mk.inj (Option.some.inj (hn.symm.trans hnow))).1
      exact (ha.1 other ho).2
    · exact hold frame hf other (mem_works_of_next hn ho)
  | @graft work rest hn hd =>
    intro other ho
    rw [works_next hn, List.pairwise_cons] at ha
    rcases List.mem_append.1 ((works_graft ..).mem_iff.1 ho) with hleft | hnew
    · rcases taken_cons.1 hf with ⟨_, hnow⟩ | hf
      · obtain rfl : work = .object frame :=
          (Prod.mk.inj (Option.some.inj (hn.symm.trans hnow))).1
        exact (ha.1 other hleft).2
      · exact hold frame hf other (mem_works_of_next hn hleft)
    · obtain ⟨tail, htail, hne⟩ := Work.path_of_mem_works hnew
      rcases taken_cons.1 hf with ⟨_, hnow⟩ | hf
      · obtain rfl : work = .object frame :=
          (Prod.mk.inj (Option.some.inj (hn.symm.trans hnow))).1
        have hpos := List.length_pos_of_ne_nil (hne ⟨frame, rfl⟩)
        have hpath : (Work.object frame).path = frame.path := rfl
        intro hp
        have hlen := hp.length_le
        rw [htail, hpath, List.length_append] at hlen
        omega
      · intro hp
        exact hold frame hf work (mem_works_next hn) ((htail ▸ List.prefix_append ..).trans hp)
  | @drain fuel outcomes after hn hp hs hd =>
    intro other ho
    have hpaths := map_works_drained (f := Work.path) (fun _ _ => rfl) hn (length_outcomes hd) after
    obtain ⟨work, hw, hwork⟩ := List.mem_map.1 (hpaths ▸ List.mem_map_of_mem ho)
    rcases taken_cons.1 hf with ⟨_, hnow⟩ | hf
    · simp [hn] at hnow
    · exact hwork ▸ hold frame hf work hw

/-- What is open holds its mark in its slot, if the slot exists. -/
theorem Sound.at?_work (h : Sound setting root past m) (hw : work ∈ m.works)
    (hs : (m.state.data.at? work.path).isSome) :
    m.state.data.at? work.path = some work.mark.2 := by
  have hmark : work.mark ∈ m.marks := List.mem_append_right _ (List.mem_map_of_mem hw)
  simpa using h.marked.at?_eq hmark (by simpa using hs)

end

/-- An object that is queued is open. -/
theorem mem_works_frontier {m : Moment W O C T} {frame : Frame W O C T}
    (h : frame ∈ m.state.frontier) : .object frame ∈ m.works := by
  simp [works, h]

/-- A task that waits is open, drained or not. -/
theorem exists_work_of_mem_waiting {m : Moment W O C T} {pending : Pending W O C T}
    (h : pending ∈ m.waiting) : ∃ work ∈ m.works, work.mark = pending.mark := by
  rcases List.mem_append.1 h with h | h
  · obtain ⟨⟨pending, outcome⟩, hd, rfl⟩ := List.mem_map.1 h
    refine ⟨.outcome pending outcome, ?_, rfl⟩
    simp only [works, List.mem_append, List.mem_map]
    exact .inl (.inl ⟨_, hd, rfl⟩)
  · exact ⟨.task pending, by simp [works, h], rfl⟩

/-! ## What becomes of a value -/

/-- What becomes of the value in a slot from a moment to a later one: from outside it looks the
same, or the slot was owned. The place of an object is filled with its fields, or the object is a
connection and becomes null. The place of a task is not filled yet. -/
inductive Survives (setting : Setting W O C T) (m : Moment W O C T)
    (since : List (Moment W O C T)) (last : Moment W O C T) (slot : Path) : Json → Prop
  | same {value value' : Json} (hl : last.state.data.at? slot = some value')
    (ht : value'.top = value.top) : Survives setting m since last slot value
  | filled {frame : Frame W O C T} {fields : Fields} (hw : .object frame ∈ m.works)
    (hp : frame.path = slot) (hl : last.state.data.at? slot = some (.object fields)) :
    Survives setting m since last slot (.object [])
  | nulled {frame : Frame W O C T} (hw : .object frame ∈ m.works) (hp : frame.path = slot)
    (hn : Nulled setting since slot) (hl : last.state.data.at? slot = some .null) :
    Survives setting m since last slot (.object [])
  | vacant {pending : Pending W O C T} (hw : pending ∈ m.waiting) (hp : pending.path = slot) :
    Survives setting m since last slot .null

section
variable {setting : Setting W O C T} {tree : SelectionTree (Definition W O C T)} {root : O}
  {world : W} {past since : List (Moment W O C T)} {m last : Moment W O C T}

/-- What is open at a moment owns its slot alone. -/
theorem Reaches.ownership (hk : tree.root.KeysDistinct)
    (h : Reaches setting (.start root tree world) past m) : Ownership past m := by
  have hapart : m.works.Pairwise (fun work other => Path.Apart work.path other.path)
      ∧ ∀ frame, Taken past frame → ∀ work ∈ m.works, ¬ work.path <+: frame.path := by
    induction h with
    | start =>
      refine ⟨List.pairwise_singleton .., ?_⟩
      rintro frame ⟨_, hmem, -⟩
      cases hmem
    | move hr hm ih =>
      have heffect := (hr.sound hk).effect hk hm
      exact ⟨pairwise_effect (hr.sound hk) hk ih.1 heffect,
        fun frame hf => released_effect ih.1 ih.2 heffect hf⟩
  have hsound := h.sound hk
  refine ⟨hapart.1, ?_, ?_, hapart.2⟩
  · intro pending hp hs
    obtain ⟨work, hw, hmark⟩ := exists_work_of_mem_waiting hp
    have hpath : work.path = pending.path := by
      rw [← Work.mark_fst, hmark]
      rfl
    have hheld := hsound.at?_work hw (by rwa [hpath])
    rw [hpath, hmark] at hheld
    exact hheld
  · exact fun frame hf hs => hsound.at?_work (mem_works_frontier hf) hs

/-- What an object comes to is an object, unless a field fails it. -/
theorem Piece.exists_fields_ofFrame {frame : Frame W O C T} {world : W}
    (h : (Piece.ofFrame setting frame world).1.value ≠ .null) :
    ∃ fields, (Piece.ofFrame setting frame world).1.value = .object fields := by
  have hfails : ¬ Piece.fails setting frame world := mt Piece.value_ofFrame_eq_null_iff.2 h
  simp only [Piece.fails, Bool.not_eq_true, Option.isSome_eq_false_iff, Option.isNone_iff_eq_none]
    at hfails
  simp only [Piece.ofFrame, hfails]
  exact ⟨_, rfl⟩

/-- A queued object whose slot exists waits in it, or is given an object for its fields, or becomes
null as a connection that one of its fields fails. -/
theorem Reaches.object_filled (hk : tree.root.KeysDistinct)
    (h : Reaches setting (.start root tree world) past m) {frame : Frame W O C T}
    (hw : .object frame ∈ m.works) (hs : (m.state.data.at? frame.path).isSome)
    (hl : Reaches setting m since last) :
    (∃ fields, last.state.data.at? frame.path = some (.object fields))
      ∨ Nulled setting since frame.path ∧ last.state.data.at? frame.path = some .null := by
  rcases h.object_waits hk hw hs hl with ⟨moment, hmem, hres⟩ | ⟨hw, hs⟩
  · obtain ⟨before, next, after, hbefore, hmove, hafter, -, -⟩ := hl.split hmem
    have hmoment := h.trans hbefore
    obtain ⟨rest, hn⟩ := hres.1
    have hnext := (hmoment.sound hk).next_of_resolves hk hmove hn hres.2
    have hrests : Rests next frame.path :=
      ((hmoment.move hmove).ownership hk).released frame (taken_cons.2 (.inl ⟨rest, hn⟩))
    have hvalue : next.state.data.at? frame.path
        = some (Piece.ofFrame setting frame moment.state.world).1.value := by
      rw [hnext, graft_state, State.graft_data, data_next hn, Json.at?_fill_self hres.2]
    obtain ⟨value, hlast, htop⟩ : ∃ value, last.state.data.at? frame.path = some value
        ∧ value.top = (Piece.ofFrame setting frame moment.state.world).1.value.top := by
      have hstays := ((hmoment.move hmove).rests hk hrests hafter).2
      rw [hvalue] at hstays
      exact Option.map_eq_some_iff.1 hstays
    by_cases hnull : (Piece.ofFrame setting frame moment.state.world).1.value = .null
    · have hfails := Piece.value_ofFrame_eq_null_iff.1 hnull
      rw [hnull] at htop
      obtain rfl := Json.top_eq_null_iff.1 htop
      refine .inr ⟨⟨moment, hmem, frame, hres, rfl, Piece.connection_of_fails hfails, ?_⟩, hlast⟩
      rw [resolveFrame_eq_graft setting frame ((hmoment.sound hk).keys_next hk hn frame rfl)
        ((hmoment.sound hk).at?_of_resolves hres), State.graft_data, Json.at?_fill_self hres.2,
        hnull]
    · obtain ⟨fields, hfields⟩ := Piece.exists_fields_ofFrame hnull
      rw [hfields] at htop
      obtain ⟨others, rfl, -⟩ := Json.top_eq_object htop
      exact .inl ⟨others, hlast⟩
  · exact .inl ⟨[], ((h.trans hl).sound hk).at?_work hw hs⟩

/-- Whatever is in a slot survives. -/
theorem Reaches.survives (hk : tree.root.KeysDistinct)
    (h : Reaches setting (.start root tree world) past m) (hl : Reaches setting m since last)
    {slot : Path} {value : Json} (hs : m.state.data.at? slot = some value) :
    Survives setting m since last slot value := by
  by_cases hrests : Rests m slot
  · have hstays := (h.rests hk hrests hl).2
    rw [hs] at hstays
    obtain ⟨value', hlast, htop⟩ := Option.map_eq_some_iff.1 hstays
    exact .same hlast htop
  · obtain ⟨work, hw, tail, rfl⟩ : ∃ work ∈ m.works, work.path <+: slot := by
      simpa [Rests] using hrests
    -- What is in the slot of open work has no parts, so the slot is that of the work.
    obtain ⟨around, haround, hbelow⟩ :=
      Option.bind_eq_some_iff.1 ((Json.at?_append ..).symm.trans hs)
    have hexists : (m.state.data.at? work.path).isSome := by simp [haround]
    have hheld := (h.sound hk).at?_work hw hexists
    have hmark : work.mark ∈ m.marks := List.mem_append_right _ (List.mem_map_of_mem hw)
    obtain rfl := Option.some.inj (haround.symm.trans hheld)
    obtain rfl := eq_nil_of_at?_isSome ((h.sound hk).marked.bare _ hmark)
      (Option.isSome_iff_exists.2 ⟨_, hbelow⟩)
    obtain rfl : work.mark.2 = value := by simpa using hbelow
    rw [List.append_nil] at hs ⊢
    cases work with
    | object frame =>
      rcases h.object_filled hk hw hexists hl with ⟨fields, hlast⟩ | ⟨hnulled, hlast⟩
      · exact .filled hw rfl hlast
      · exact .nulled hw rfl hnulled hlast
    | task pending =>
      have hqueued : pending ∈ m.state.pending := by simpa [works] using hw
      exact .vacant (List.mem_append_right _ hqueued) rfl
    | outcome pending outcome =>
      have hdue : (pending, outcome) ∈ m.due := by simpa [works] using hw
      exact .vacant (List.mem_append_left _ (List.mem_map.2 ⟨_, hdue, rfl⟩)) rfl

/-- At every moment each slot has one owner at most, and once a queued object is taken its slot is
not owned again. Therefore whatever is completed finds null in its slot, and what it leaves in the
slot survives until the execution ends, unless the slot lies in a connection that becomes null in
the same move. -/
theorem execute_ownsSlots (hk : tree.root.KeysDistinct) :
    (∀ past m, Reaches setting (.start root tree world) past m → Ownership past m
      ∧ ∀ next, Move setting m next → ∀ call, Calls setting m call →
        call.state.data.at? call.path = some .null
        ∧ (Nulls m next call.path ∨ ∀ since last, Reaches setting next since last →
          ∀ tail value, (call.run setting).data.at? (call.path ++ tail) = some value →
            Survives setting next since last (call.path ++ tail) value))
    ∧ ∀ fuel answer after, execute setting tree root fuel world = some (answer, after) →
      ∃ past last stop, Reaches setting (.start root tree world) past last
        ∧ answer.data = some last.state.data ∧ Ends setting last stop := by
  constructor
  · intro past m hr
    refine ⟨hr.ownership hk, fun next hm call hc => ?_⟩
    obtain ⟨hfound, hleft | hnulls⟩ := hc.finds_null (hr.sound hk) hk hm
    · refine ⟨hfound, .inr fun since last hl tail value hvalue => ?_⟩
      refine (hr.move hm).survives hk hl ?_
      rw [Json.at?_append, hleft, ← Json.at?_append, hvalue]
    · exact ⟨hfound, .inl hnulls⟩
  · intro fuel answer after h
    obtain ⟨past, last, hr, hdata, stop, -, hends⟩ := execute_eq_some hk h
    exact ⟨past, last, stop, hr, hdata, hends⟩

end

/-- The field of the connection that is answered with a task, when its value is completed. -/
def laterCompletion : Completion Unit Unit Unit Unit where
  invocation := ⟨laterField, { strategy := .custom fun _ _ => pure (.ok (.lazy ())) }, []⟩
  type := .named "String"
  path := [.key "items", .key "later"]
  value := .lazy ()
  state :=
    ⟨(), .object [("items", .object [("later", .null), ("broken", .null)])], [], [], []⟩

/-- A task is queued in a connection that becomes null in the same move, and keeps its slot apart
although it is gone. -/
theorem execute_ownsSlots_brokenTree :
    brokenTree.root.KeysDistinct
      ∧ Calls emptySetting brokenMoment laterCompletion
      ∧ laterCompletion.state.data.at? laterCompletion.path = some .null
      ∧ ∃ past next, Reaches emptySetting (.start () brokenTree ()) past brokenMoment
        ∧ Ownership past brokenMoment ∧ Move emptySetting brokenMoment next
        ∧ Nulls brokenMoment next laterCompletion.path
        ∧ Ownership (brokenMoment :: past) next
        ∧ next.works.map Work.path = [laterCompletion.path] := by
  obtain ⟨past, hr⟩ := brokenTree_reaches
  have howns := (@execute_ownsSlots _ _ _ _ emptySetting brokenTree () ()
    brokenTree_keysDistinct).1
  have hcompletes : Calls emptySetting brokenMoment laterCompletion :=
    .field rfl rfl rfl (.now rfl)
  obtain ⟨next, hmove, hnull, hworks⟩ : ∃ next, Move emptySetting brokenMoment next
      ∧ next.state.data.at? brokenFrame.path = some .null
      ∧ next.works.map Work.path = [laterCompletion.path] := ⟨_, .work rfl, rfl, rfl⟩
  have hnulls : Nulls brokenMoment next laterCompletion.path :=
    ⟨brokenFrame, brokenTree_collapse.resolves, ⟨[.key "later"], rfl⟩, ⟨_, rfl⟩, hnull⟩
  exact ⟨brokenTree_keysDistinct, hcompletes, ((howns past _ hr).2 _ hmove _ hcompletes).1,
    past, _, hr, (howns past _ hr).1, hmove, hnulls, (howns _ _ (hr.move hmove)).1, hworks⟩

end QueryEngine.Execution
