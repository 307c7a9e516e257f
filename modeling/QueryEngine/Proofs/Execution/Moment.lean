import QueryEngine.Execution.Run
import QueryEngine.Proofs.Execution.Fit
import QueryEngine.Proofs.Polling
import QueryEngine.Proofs.Selection.Within

/-!
# Moments of an execution

An execution does one thing after the other: it resolves an object, puts the outcome of a task in
its slot, or drains the tasks that are queued. A `Moment` is where it stands in between, a `Move`
is one thing done, and `Reaches` collects the moments passed on the way. What is open at a moment
is a list of `Work`, the next one first; doing it either leaves everything as it is, where the slot
is gone, or grafts the piece of the work (`run_eq_graft`, `run_of_none`).
-/

namespace QueryEngine.Execution

variable {W O C T : Type}

variable (W O C T) in
/-- Something that an execution still has to do. -/
inductive Work where
  | object (frame : Frame W O C T)
  | task (pending : Pending W O C T)
  /-- A task that is drained, with its outcome. -/
  | outcome (pending : Pending W O C T) (outcome : Outcome O C T)

namespace Work

/-- The slot. -/
def path : Work W O C T → Path
  | object frame => frame.path
  | task pending => pending.path
  | outcome pending _ => pending.path

/-- The node whose slot it is. -/
def node : Work W O C T → Node (Definition W O C T)
  | object frame => frame.node
  | task pending => pending.invocation.node
  | outcome pending _ => pending.invocation.node

/-- What is in the slot for as long as the work is open. -/
def mark : Work W O C T → Mark
  | object frame => frame.mark
  | task pending => pending.mark
  | outcome pending _ => pending.mark

@[simp] theorem mark_fst (work : Work W O C T) : work.mark.1 = work.path := by
  cases work <;> rfl

/-- Does the work; a task has to be drained first. -/
def run (setting : Setting W O C T) : Work W O C T → State W O C T → State W O C T
  | object frame, state => resolveFrame setting frame state
  | task pending, state => state.enqueue pending
  | outcome pending result, state => apply setting state pending result

/-- What doing the work contributes. -/
def piece (setting : Setting W O C T) (world : W) : Work W O C T → Piece W O C T × W
  | object frame => Piece.ofFrame setting frame world
  | task pending => (.waiting pending, world)
  | outcome pending result => Piece.ofOutcome setting pending result world

/-- Whether the work ends in the failure of the whole object. -/
def fails (setting : Setting W O C T) (world : W) : Work W O C T → Bool
  | object frame => Piece.fails setting frame world
  | task _ => false
  | outcome _ _ => false

end Work

/-- The work that a piece leaves. -/
def Piece.works (piece : Piece W O C T) : List (Work W O C T) :=
  piece.frames.map .object ++ piece.pending.map .task

/-- The marks of a piece are those of its errors and then those of its work. -/
theorem Piece.marks_eq (piece : Piece W O C T) :
    piece.marks = errorMarks piece.errors ++ piece.works.map Work.mark := by
  simp [marks, works, Function.comp_def, Work.mark]

/-- Work that a piece leaves is marked by it. -/
theorem Piece.mark_mem_marks {piece : Piece W O C T} {work : Work W O C T}
    (h : work ∈ piece.works) : work.mark ∈ piece.marks := by
  rw [marks_eq]
  exact List.mem_append_right _ (List.mem_map_of_mem h)

/-- Work that a tidy piece leaves lies within its slot. -/
theorem Piece.Tidy.path_of_mem_works {path : Path} {piece : Piece W O C T} {failed : Prop}
    (h : piece.Tidy path failed) {work : Work W O C T} (hw : work ∈ piece.works) :
    ∃ rest, work.path = path ++ rest := by
  obtain ⟨rest, hr, -⟩ := h.holds _ (mark_mem_marks hw)
  exact ⟨rest, by simpa using hr⟩

/-- The work that a gathered value leaves is that of its parts. -/
theorem Piece.works_gather (c : Container) (parts : List (Segment × Piece W O C T)) :
    (Piece.gather c parts).works.Perm (parts.flatMap (·.2.works)) := by
  have h : (Piece.gather c parts).works
      = (parts.flatMap fun part => part.2.frames.map Work.object)
        ++ parts.flatMap fun part => part.2.pending.map Work.task := by
    simp [Piece.works, Piece.gather, List.map_flatMap]
  rw [h]
  exact List.flatMap_append_perm ..

/-- The work that pieces leave together is what each of them leaves. -/
theorem Piece.mem_works_gather {c : Container} {parts : List (Segment × Piece W O C T)}
    {work : Work W O C T} :
    work ∈ (Piece.gather c parts).works ↔ ∃ part ∈ parts, work ∈ part.2.works :=
  (Piece.works_gather c parts).mem_iff.trans List.mem_flatMap

/-- A failure leaves the work of the fields that were resolved before. -/
theorem Piece.works_close (path : Path) (parts : List (Segment × Piece W O C T))
    (failure : Option FieldError) :
    (Piece.close path parts failure).works = (Piece.gather .object parts).works := by
  cases failure <;> rfl

variable (W O C T) in
/-- Where an execution stands. -/
structure Moment where
  /-- The number of drain steps taken. -/
  steps : Nat
  state : State W O C T
  /-- The outcomes of the last drain step that are not in their slots yet. -/
  due : List (Pending W O C T × Outcome O C T)

namespace Moment

/-- The moment before anything is resolved. -/
def start (root : O) (tree : SelectionTree (Definition W O C T)) (world : W) : Moment W O C T :=
  ⟨0, .initial root tree world, []⟩

/-- What is to be done next, and the moment without it; nothing if only tasks are left. -/
def next? (m : Moment W O C T) : Option (Work W O C T × Moment W O C T) :=
  match m.due, m.state.frontier with
  | (pending, outcome) :: due, _ => some (.outcome pending outcome, { m with due })
  | [], frame :: frontier => some (.object frame, { m with state := { m.state with frontier } })
  | [], [] => none

/-- Everything that is open, in the order in which it is done. -/
def works (m : Moment W O C T) : List (Work W O C T) :=
  m.due.map (fun (pending, outcome) => .outcome pending outcome) ++ m.state.frontier.map .object
    ++ m.state.pending.map .task

/-- The tasks whose slots are still open. -/
def waiting (m : Moment W O C T) : List (Pending W O C T) :=
  m.due.map Prod.fst ++ m.state.pending

/-- The marks of a moment. -/
def marks (m : Moment W O C T) : List Mark :=
  errorMarks m.state.errors ++ m.works.map Work.mark

/-- The slots that hold null because of an error or a task. -/
def nulls (m : Moment W O C T) : List Path :=
  m.state.errors.filterMap ResponseError.path ++ m.waiting.map Pending.path

/-- Adds the contribution of a slot. -/
def graft (m : Moment W O C T) (path : Path) (result : Piece W O C T × W) : Moment W O C T :=
  { m with state := m.state.graft path result }

/-- Nothing that is to be done next is a task. -/
theorem next?_eq_some {m rest : Moment W O C T} {work : Work W O C T}
    (h : m.next? = some (work, rest)) :
    (∃ pending outcome, work = .outcome pending outcome
        ∧ m.due = (pending, outcome) :: rest.due ∧ rest.state = m.state)
      ∨ ∃ frame, work = .object frame ∧ m.due = [] ∧ rest.due = []
        ∧ m.state.frontier = frame :: rest.state.frontier
        ∧ m.state = { rest.state with frontier := frame :: rest.state.frontier } := by
  obtain ⟨steps, ⟨world, data, errors, frontier, pending⟩, due⟩ := m
  cases due with
  | cons first due =>
    cases h
    exact .inl ⟨_, _, rfl, rfl, rfl⟩
  | nil =>
    cases frontier with
    | cons frame frontier =>
      cases h
      exact .inr ⟨_, rfl, rfl, rfl, rfl, rfl⟩
    | nil => cases h

section
variable {m rest : Moment W O C T} {work : Work W O C T}

/-- A task is not done before it is drained, so it is never next. -/
theorem next_ne_task (h : m.next? = some (work, rest)) (pending : Pending W O C T) :
    work ≠ .task pending := by
  rintro rfl
  rcases next?_eq_some h with ⟨_, _, he, _⟩ | ⟨_, he, _⟩ <;> cases he

/-- What is next is the first thing that is open. -/
theorem works_next (h : m.next? = some (work, rest)) : m.works = work :: rest.works := by
  rcases next?_eq_some h with ⟨pending, outcome, rfl, hd, hs⟩ | ⟨frame, rfl, hd, hr, -, hs⟩
  · simp [works, hd, hs]
  · simp [works, hd, hr, hs]

/-- Taking up what is next writes nothing. -/
theorem data_next (h : m.next? = some (work, rest)) : rest.state.data = m.state.data := by
  rcases next?_eq_some h with ⟨_, _, _, _, hs⟩ | ⟨_, _, _, _, _, hs⟩ <;> rw [hs]

/-- Taking up what is next reports nothing. -/
theorem errors_next (h : m.next? = some (work, rest)) : rest.state.errors = m.state.errors := by
  rcases next?_eq_some h with ⟨_, _, _, _, hs⟩ | ⟨_, _, _, _, _, hs⟩ <;> rw [hs]

/-- Taking up what is next does nothing to the world. -/
theorem world_next (h : m.next? = some (work, rest)) : rest.state.world = m.state.world := by
  rcases next?_eq_some h with ⟨_, _, _, _, hs⟩ | ⟨_, _, _, _, _, hs⟩ <;> rw [hs]

/-- The marks of a moment are the mark of what is next and the marks of the rest. -/
theorem marks_next (h : m.next? = some (work, rest)) :
    m.marks.Perm (work.mark :: rest.marks) := by
  rw [marks, marks, works_next h, errors_next h]
  exact List.perm_middle

/-- A task that waits after the next work waits before it. -/
theorem mem_waiting_next (h : m.next? = some (work, rest)) {pending : Pending W O C T}
    (hp : pending ∈ rest.waiting) : pending ∈ m.waiting := by
  rcases next?_eq_some h with ⟨_, _, _, hd, hs⟩ | ⟨_, _, hd, hr, _, hs⟩
  · rw [waiting, hs] at hp
    simp only [waiting, hd, List.map_cons, List.cons_append]
    exact List.mem_cons_of_mem _ hp
  · simpa [waiting, hd, hr, hs] using hp

/-- Only the slot of the next work is open no longer when the work is left out. -/
theorem mem_nulls_next (h : m.next? = some (work, rest)) {slot : Path} (hs : slot ∈ m.nulls) :
    slot = work.path ∨ slot ∈ rest.nulls := by
  simp only [nulls, List.mem_append] at hs ⊢
  rw [errors_next h]
  rcases hs with he | hw
  · exact .inr (.inl he)
  rcases next?_eq_some h with ⟨pending, outcome, rfl, hd, hs⟩ | ⟨frame, rfl, hd, hr, _, hs⟩
  · simp only [waiting, hd, List.map_cons, List.cons_append, List.mem_cons] at hw
    rcases hw with rfl | hw
    · exact .inl rfl
    · exact .inr (.inr (by rwa [waiting, hs]))
  · exact .inr (.inr (by simpa [waiting, hd, hr, hs] using hw))

end

/-- Where nothing is to be done next, only tasks are left. -/
theorem next?_eq_none {m : Moment W O C T} (h : m.next? = none) :
    m.due = [] ∧ m.state.frontier = [] := by
  obtain ⟨steps, ⟨world, data, errors, frontier, pending⟩, due⟩ := m
  cases due with
  | cons first due => cases h
  | nil =>
    cases frontier with
    | cons frame frontier => cases h
    | nil => exact ⟨rfl, rfl⟩

@[simp] theorem graft_state (m : Moment W O C T) (path : Path) (result : Piece W O C T × W) :
    (m.graft path result).state = m.state.graft path result := rfl

/-- A piece leaves its work to the moment. -/
theorem works_graft (m : Moment W O C T) (path : Path) (result : Piece W O C T × W) :
    (m.graft path result).works.Perm (m.works ++ result.1.works) := by
  simp only [works, graft, State.graft, Piece.works, List.map_append, List.append_assoc]
  refine .append_left _ (.append_left _ ?_)
  rw [← List.append_assoc, ← List.append_assoc]
  exact List.perm_append_comm.append_right _

/-- A piece leaves its marks to the moment. -/
theorem marks_graft (m : Moment W O C T) (path : Path) (result : Piece W O C T × W) :
    (m.graft path result).marks.Perm (result.1.marks ++ m.marks) := by
  have hw := (works_graft m path result).map Work.mark
  simp only [marks, Piece.marks_eq, graft_state, State.graft, errorMarks, List.filterMap_append,
    List.map_append] at hw ⊢
  refine (List.Perm.append_left _ hw).trans ?_
  refine List.Perm.trans ?_ List.perm_append_comm
  simp only [List.append_assoc]
  exact .append_left _ (List.perm_append_comm_assoc ..)

/-- A task waits after a piece is grafted if it waited before or comes with the piece. -/
theorem mem_waiting_graft {m : Moment W O C T} {path : Path} {result : Piece W O C T × W}
    {pending : Pending W O C T} :
    pending ∈ (m.graft path result).waiting
      ↔ pending ∈ m.waiting ∨ pending ∈ result.1.pending := by
  simp only [waiting, graft, State.graft, List.mem_append]
  tauto

/-- A slot is null after a piece is grafted if it was before or is null in the piece. -/
theorem mem_nulls_graft {m : Moment W O C T} {path : Path} {result : Piece W O C T × W}
    {slot : Path} :
    slot ∈ (m.graft path result).nulls ↔ slot ∈ m.nulls ∨ slot ∈ result.1.nulls := by
  simp only [nulls, waiting, graft, State.graft, Piece.nulls, List.filterMap_append,
    List.map_append, List.mem_append]
  tauto

end Moment

/-! ## Moves -/

/-- The moment after the tasks have been drained. -/
def Moment.drained (m : Moment W O C T) (outcomes : List (Outcome O C T)) (world : W) :
    Moment W O C T :=
  ⟨m.steps + 1, { m.state with world, pending := [] }, m.state.pending.zip outcomes⟩

/-- One thing done. -/
inductive Move (setting : Setting W O C T) : Moment W O C T → Moment W O C T → Prop
  | work {m rest : Moment W O C T} {work : Work W O C T} (h : m.next? = some (work, rest)) :
    Move setting m { rest with state := work.run setting rest.state }
  | drain {m : Moment W O C T} {fuel : Nat} {outcomes : List (Outcome O C T)} {world : W}
    (h : m.next? = none) (hp : m.state.pending ≠ [])
    (hs : stop? setting m.steps m.state.world = none)
    (hd : drain setting fuel m.state = some (.completed outcomes, world)) :
    Move setting m (m.drained outcomes world)

/-- The moves from one moment to another, with the moments passed, the last one first. -/
inductive Reaches (setting : Setting W O C T) (start : Moment W O C T) :
    List (Moment W O C T) → Moment W O C T → Prop
  | start : Reaches setting start [] start
  | move {past : List (Moment W O C T)} {m m' : Moment W O C T} :
    Reaches setting start past m → Move setting m m' → Reaches setting start (m :: past) m'

/-- The fields of the object are resolved now. -/
def Resolves (m : Moment W O C T) (frame : Frame W O C T) : Prop :=
  (∃ rest, m.next? = some (.object frame, rest)) ∧ (m.state.data.at? frame.path).isSome

/-- The fields of the object were resolved. -/
def Resolved (past : List (Moment W O C T)) (frame : Frame W O C T) : Prop :=
  ∃ m ∈ past, Resolves m frame

/-- The slot of a connection became null because one of its fields failed it. -/
def Nulled (setting : Setting W O C T) (past : List (Moment W O C T)) (path : Path) : Prop :=
  ∃ m ∈ past, ∃ frame, Resolves m frame ∧ frame.path = path
    ∧ (∃ connection, frame.source = .connection connection)
    ∧ (resolveFrame setting frame m.state).data.at? path = some .null

/-- A slot of a field of an object that was resolved, with the type of the slot: the field's own
slot, or one of an item if the field is a list. -/
def Slot (setting : Setting W O C T) (past : List (Moment W O C T)) (path : Path)
    (type : TypeRef) : Prop :=
  ∃ frame, Resolved past frame ∧ ∃ child ∈ Piece.included setting frame, ∃ indices : List Nat,
    path = frame.path ++ .key child.key :: indices.map .index
      ∧ child.type.slot? indices = some type

/-! ## What doing work amounts to -/

namespace Work

section
variable {setting : Setting W O C T} {work : Work W O C T} {world : W}

/-- The piece of some work is tidy. -/
theorem tidy_piece
    (hk : ∀ frame, work = .object frame → ((Piece.included setting frame).map Node.key).Nodup)
    (world : W) : (work.piece setting world).1.Tidy work.path (work.fails setting world) := by
  cases work with
  | object frame => exact Piece.tidy_ofFrame (hk frame rfl) world
  | task pending =>
    have hp : (Piece.waiting pending).Tidy pending.path False :=
      Piece.tidy_of_marks_eq (.inr rfl)
    simpa [piece, path, fails] using hp
  | outcome pending result =>
    simpa [piece, path, fails] using (Piece.fits_ofOutcome setting pending result world).tidy

/-- Every error that work contributes has a path and a code. -/
theorem labelled_piece {error : ResponseError}
    (h : error ∈ (work.piece setting world).1.errors) : Labelled error := by
  cases work with
  | object frame => exact Piece.labelled_ofFrame h
  | task pending => cases h
  | outcome pending result => exact (Piece.fits_ofOutcome ..).labelled error h

/-- Work that a piece leaves lies within the slot, and strictly within that of an object. -/
theorem path_of_mem_works {left : Work W O C T} (h : left ∈ (work.piece setting world).1.works) :
    ∃ rest, left.path = work.path ++ rest ∧ ((∃ frame, work = .object frame) → rest ≠ []) := by
  cases work with
  | object frame =>
    rcases List.mem_append.1 h with h | h
    · obtain ⟨inner, hm, rfl⟩ := List.mem_map.1 h
      obtain ⟨child, -, -, rest, hp⟩ := Piece.mem_frames_ofFrame hm
      exact ⟨_, hp, fun _ => by simp⟩
    · obtain ⟨pending, hm, rfl⟩ := List.mem_map.1 h
      obtain ⟨child, -, -, indices, hp, -⟩ := Piece.mem_pending_ofFrame hm
      exact ⟨_, hp, fun _ => by simp⟩
  | task pending =>
    have h : left ∈ [Work.task pending] := h
    exact ⟨[], by simp [List.mem_singleton.1 h], nofun⟩
  | outcome pending result =>
    obtain ⟨rest, hr⟩ :=
      (Piece.fits_ofOutcome setting pending result world).tidy.path_of_mem_works h
    exact ⟨rest, hr, nofun⟩

/-- Work that a piece leaves is about nodes within those of the work. -/
theorem within_piece {root : Node (Definition W O C T)} (hw : Node.Within root work.node)
    {left : Work W O C T} (h : left ∈ (work.piece setting world).1.works) :
    Node.Within root left.node := by
  have hchild : ∀ {frame : Frame W O C T} {child : Node (Definition W O C T)},
      Node.Within root frame.node → child ∈ Piece.included setting frame →
        Node.Within root child := by
    intro frame child hw hc
    obtain ⟨hm, -⟩ := List.mem_filter.1 hc
    cases hs : frame.node.children? frame.concrete with
    | none => simp [hs] at hm
    | some children => exact hw.child (Node.isChild_of_mem hs (by simpa [hs] using hm))
  cases work with
  | object frame =>
    rcases List.mem_append.1 h with h | h
    · obtain ⟨inner, hm, rfl⟩ := List.mem_map.1 h
      obtain ⟨child, hc, hn, -⟩ := Piece.mem_frames_ofFrame hm
      simpa [node, hn] using hchild hw hc
    · obtain ⟨pending, hm, rfl⟩ := List.mem_map.1 h
      obtain ⟨child, hc, hn, -⟩ := Piece.mem_pending_ofFrame hm
      simpa [node, hn] using hchild hw hc
  | task pending =>
    have h : left ∈ [Work.task pending] := h
    exact List.mem_singleton.1 h ▸ hw
  | outcome pending result =>
    have hf := Piece.fits_ofOutcome setting pending result world
    rcases List.mem_append.1 h with h | h
    · obtain ⟨inner, hm, rfl⟩ := List.mem_map.1 h
      simpa [node, hf.frames inner hm] using hw
    · obtain ⟨other, hm, rfl⟩ := List.mem_map.1 h
      simpa [node, (hf.pending other hm).1] using hw

end

end Work

/-- Work on a slot that is gone changes nothing. -/
theorem run_of_none (setting : Setting W O C T) {work : Work W O C T} {state : State W O C T}
    (hw : ∀ pending, work ≠ .task pending) (h : state.data.at? work.path = none) :
    work.run setting state = state := by
  cases work with
  | object frame => exact resolveFrame_of_none setting frame h
  | task pending => exact absurd rfl (hw pending)
  | outcome pending outcome =>
    have h : state.data.at? pending.path = none := h
    simp [Work.run, apply, h]

/-- Work on a slot that holds its mark grafts the piece of the work. -/
theorem run_eq_graft (setting : Setting W O C T) {work : Work W O C T} {state : State W O C T}
    (hk : ∀ frame, work = .object frame → ((Piece.included setting frame).map Node.key).Nodup)
    (h : state.data.at? work.path = some work.mark.2) :
    work.run setting state = state.graft work.path (work.piece setting state.world) := by
  cases work with
  | object frame => exact resolveFrame_eq_graft setting frame (hk frame rfl) h
  | task pending =>
    have h : state.data.at? pending.path = some .null := h
    have he : { state with world := state.world }.enqueue pending = _ := State.enqueue_eq h
    exact he
  | outcome pending outcome =>
    have h : state.data.at? pending.path = some .null := h
    simp only [Work.run, apply, h, Option.isNone_some, Bool.false_eq_true, if_false]
    cases outcome with
    | ok value => exact complete_eq_graft setting _ _ _ _ _ h
    | error error => exact State.report_eq h _ _

/-- A drain step has one outcome for each task. -/
theorem length_outcomes {setting : Setting W O C T} {fuel : Nat} {state : State W O C T}
    {outcomes : List (Outcome O C T)} {world : W}
    (h : drain setting fuel state = some (.completed outcomes, world)) :
    outcomes.length = state.pending.length := by
  simpa using Polling.length_of_drain_eq_completed h

namespace Moment

variable {m : Moment W O C T} {outcomes : List (Outcome O C T)}

/-- The tasks still wait for their slots after they are drained. -/
theorem waiting_drained (h : m.next? = none) (hl : outcomes.length = m.state.pending.length)
    (world : W) : (m.drained outcomes world).waiting = m.waiting := by
  simp [waiting, drained, (next?_eq_none h).1, List.map_fst_zip, hl]

/-- Where nothing is next, all that is open are tasks. -/
theorem works_of_next?_eq_none (h : m.next? = none) :
    m.works = m.state.pending.map .task := by
  simp [works, next?_eq_none h]

/-- Once the tasks are drained, what is open are their outcomes, in order. -/
theorem works_drained (h : m.next? = none) (world : W) :
    (m.drained outcomes world).works
      = (m.state.pending.zip outcomes).map fun (pending, outcome) => .outcome pending outcome := by
  simp [works, drained, next?_eq_none h]

/-- Draining a task changes neither its slot nor its node. -/
theorem map_works_drained {α : Type} {f : Work W O C T → α}
    (hf : ∀ pending outcome, f (.outcome pending outcome) = f (.task pending))
    (h : m.next? = none) (hl : outcomes.length = m.state.pending.length) (world : W) :
    (m.drained outcomes world).works.map f = m.works.map f := by
  rw [works_drained h, works_of_next?_eq_none h]
  have hmap : (fun d : Pending W O C T × Outcome O C T => f (.outcome d.1 d.2))
      = (fun pending => f (.task pending)) ∘ Prod.fst := by
    funext d
    simp [hf]
  rw [List.map_map, List.map_map]
  exact (congrArg (List.map · _) hmap).trans
    (by rw [← List.map_map, List.map_fst_zip (by omega)]; rfl)

end Moment

end QueryEngine.Execution
