import QueryEngine.Proofs.Execution.DrainLimit
import QueryEngine.Proofs.Execution.Ownership
import QueryEngine.Proofs.Polling.Started

/-!
# Batches of tasks

The tasks that are queued between two drain steps are the batch of the second one: none is lost,
none is forced in another step, and none twice (`Batched`). Nothing else is open when a batch is
forced. Its results are put in place one after the other, in the order of the batch, each in the
slot of its own task (`Placed`): what the slot holds is not touched by the results before and after,
so an error among them changes nothing for the others.
-/

namespace QueryEngine.Execution

open Moment

variable {W O C T : Type}

/-! ## What is queued and what is forced -/

/-- The tasks that the next work queues. -/
def Moment.queued (setting : Setting W O C T) (m : Moment W O C T) : List (Pending W O C T) :=
  match m.next? with
  | some (work, rest) => (work.run setting rest.state).pending.drop rest.state.pending.length
  | none => []

/-- The tasks that were queued after a number of drain steps, in order. -/
def queuedAfter (setting : Setting W O C T) (past : List (Moment W O C T)) (steps : Nat) :
    List (Pending W O C T) :=
  (past.reverse.filter fun m => m.steps = steps).flatMap (·.queued setting)

/-- The moments after a number of drain steps at which the next one was taken. -/
def drainsAfter (past : List (Moment W O C T)) (steps : Nat) : List (Moment W O C T) :=
  past.reverse.filter fun m => m.steps = steps ∧ m.next?.isNone

/-- What was queued before each drain step is what it forced. -/
structure Batched (setting : Setting W O C T) (past : List (Moment W O C T))
    (m : Moment W O C T) : Prop where
  /-- Each drain step was taken once, with nothing but its batch open. -/
  forced : ∀ steps < m.steps, ∃ batch, drainsAfter past steps = [batch]
    ∧ batch.due = [] ∧ batch.state.frontier = []
    ∧ queuedAfter setting past steps = batch.state.pending
  /-- What was queued since waits for the next one. -/
  waiting : queuedAfter setting past m.steps = m.state.pending
  undrained : drainsAfter past m.steps = []
  later : ∀ steps, m.steps < steps →
    queuedAfter setting past steps = [] ∧ drainsAfter past steps = []

section
variable {setting : Setting W O C T} {past : List (Moment W O C T)} {m next rest : Moment W O C T}
  {work : Work W O C T} {steps : Nat}

/-- What the last moment passed queues comes after what was queued before. -/
theorem queuedAfter_cons : queuedAfter setting (m :: past) steps
    = queuedAfter setting past steps ++ if m.steps = steps then m.queued setting else [] := by
  simp only [queuedAfter, List.reverse_cons, List.filter_append, List.flatMap_append]
  split <;> simp [*]

/-- The last moment passed is a drain step if nothing is next there. -/
theorem drainsAfter_cons : drainsAfter (m :: past) steps
    = drainsAfter past steps ++ if m.steps = steps ∧ m.next?.isNone then [m] else [] := by
  simp only [drainsAfter, List.reverse_cons, List.filter_append]
  split <;> simp_all

/-- Taking up what is next is no drain step. -/
theorem steps_next (h : m.next? = some (work, rest)) : rest.steps = m.steps := by
  obtain ⟨steps, ⟨world, data, errors, frontier, pending⟩, due⟩ := m
  cases due with
  | cons first due => cases h; rfl
  | nil =>
    cases frontier with
    | cons frame frontier => cases h; rfl
    | nil => cases h

/-- Taking up what is next leaves the tasks queued. -/
theorem pending_next (h : m.next? = some (work, rest)) :
    rest.state.pending = m.state.pending := by
  rcases next?_eq_some h with ⟨_, _, _, _, hs⟩ | ⟨_, _, _, _, _, hs⟩ <;> rw [hs]

/-- Work adds to what is queued. -/
theorem queues_run (setting : Setting W O C T) (work : Work W O C T) (state : State W O C T) :
    Queues (fun _ => True) state (work.run setting state) := by
  cases work with
  | object frame => exact (queues_resolveFrame setting frame state).imp fun _ _ => trivial
  | task pending => exact queues_enqueue state trivial
  | outcome pending outcome =>
    simp only [Work.run, apply]
    split
    · exact .refl state
    · cases outcome with
      | ok value => exact (queues_complete ..).imp fun _ _ => trivial
      | error error => exact queues_report ..

/-- What is queued after the next work is what was queued before, and what the work queues. -/
theorem pending_run (h : m.next? = some (work, rest)) :
    (work.run setting rest.state).pending = m.state.pending ++ m.queued setting := by
  obtain ⟨-, new, hnew, -⟩ := queues_run setting work rest.state
  simp only [queued, h]
  rw [hnew, List.drop_left, pending_next h]

/-- Every move keeps it. -/
theorem Batched.move (h : Batched setting past m) (hm : Move setting m next) :
    Batched setting (m :: past) next := by
  cases hm with
  | @work rest work hn =>
    have hsteps : rest.steps = m.steps := steps_next hn
    have hdrains : ∀ steps, drainsAfter (m :: past) steps = drainsAfter past steps := by
      intro steps
      simp [drainsAfter_cons, hn]
    refine ⟨?_, ?_, ?_, ?_⟩
    · intro steps hlt
      have hlt : steps < m.steps := hsteps ▸ hlt
      obtain ⟨batch, hbatch, hdue, hfrontier, hqueued⟩ := h.forced steps hlt
      refine ⟨batch, by rw [hdrains, hbatch], hdue, hfrontier, ?_⟩
      rw [queuedAfter_cons, if_neg (Nat.ne_of_gt hlt), List.append_nil, hqueued]
    · simp only [hsteps, queuedAfter_cons, if_true, h.waiting, pending_run hn]
    · simp only [hsteps, hdrains, h.undrained]
    · intro steps hlt
      have hlt : m.steps < steps := hsteps ▸ hlt
      rw [hdrains, queuedAfter_cons, if_neg (Nat.ne_of_lt hlt), List.append_nil]
      exact h.later steps hlt
  | @drain fuel outcomes after hn hp hs hd =>
    have hqueued : ∀ steps, queuedAfter setting (m :: past) steps
        = queuedAfter setting past steps := by
      intro steps
      simp [queuedAfter_cons, queued, hn]
    obtain ⟨hdue, hfrontier⟩ := next?_eq_none hn
    refine ⟨?_, ?_, ?_, ?_⟩
    · intro steps hlt
      rcases Nat.lt_succ_iff_lt_or_eq.1 hlt with hlt | rfl
      · obtain ⟨batch, hbatch, hrest⟩ := h.forced steps hlt
        refine ⟨batch, ?_, by rwa [hqueued]⟩
        rw [drainsAfter_cons, if_neg fun hm => Nat.ne_of_gt hlt hm.1, List.append_nil, hbatch]
      · refine ⟨m, ?_, hdue, hfrontier, by rw [hqueued, h.waiting]⟩
        rw [drainsAfter_cons, if_pos ⟨rfl, by simp [hn]⟩, h.undrained, List.nil_append]
    · rw [hqueued]
      exact (h.later _ (Nat.lt_succ_self _)).1
    · have hne : m.steps ≠ m.steps + 1 := by omega
      rw [show (m.drained outcomes after).steps = m.steps + 1 from rfl, drainsAfter_cons,
        if_neg fun hm => hne hm.1, List.append_nil]
      exact (h.later _ (Nat.lt_succ_self _)).2
    · intro steps hlt
      have hlt : m.steps + 1 < steps := hlt
      rw [hqueued, drainsAfter_cons, if_neg fun hm => by omega, List.append_nil]
      exact h.later steps (by omega)

/-- At each moment of an execution the drain steps before it forced what was queued for them. -/
theorem Reaches.batched {tree : SelectionTree (Definition W O C T)} {root : O} {world : W}
    (h : Reaches setting (.start root tree world) past m) : Batched setting past m := by
  induction h with
  | start => exact ⟨nofun, rfl, rfl, fun _ _ => ⟨rfl, rfl⟩⟩
  | move _ hm ih => exact ih.move hm

end

/-! ## Every task is queued -/

/-- The task that a value is, or that is made from it, with its slot. -/
def Completion.task? (setting : Setting W O C T) (call : Completion W O C T) :
    Option (Pending W O C T) :=
  match call.value with
  | .lazy task => some ⟨call.path, call.type, call.invocation, task⟩
  | .deferred marker =>
    match setting.registry.lazyResolver call.invocation.descriptor marker with
    | .error _ => none
    | .ok resolver =>
      some ⟨call.path, call.type, call.invocation,
        (resolver marker call.invocation.arguments call.state.world).1⟩
  | _ => none

/-- The state that the turn of a field leaves; a value is not completed in it yet. -/
def Turn.state : Turn W O C T → State W O C T
  | .completes call _ => call.state
  | .passes state _ | .fails state => state

section
variable {setting : Setting W O C T} {m next : Moment W O C T} {frame : Frame W O C T}
  {children : List (Node (Definition W O C T))} {known : Option (Page O)} {state : State W O C T}
  {call inner : Completion W O C T} {pending : Pending W O C T}

/-- Queueing adds tasks behind those that are there. -/
theorem Queues.pending_grows {kind : Node (Definition W O C T) → Prop}
    {before after : State W O C T} (h : Queues kind before after) :
    before.pending <+: after.pending := by
  obtain ⟨-, new, hnew, -⟩ := h
  exact ⟨new, hnew.symm⟩

/-- A task is queued when it is completed. -/
theorem Completion.pending_of_task? (h : call.task? setting = some pending) :
    (call.run setting).pending = call.state.pending ++ [pending] := by
  obtain ⟨invocation, type, path, value, state⟩ := call
  have hsingle : complete setting invocation type path value state
      = completeSingle setting invocation type path value state := by
    cases value with
    | lazy task | deferred marker => cases type <;> rfl
    | value | object | collection | list => cases h
  simp only [Completion.run, hsingle]
  cases value with
  | lazy task =>
    obtain rfl := Option.some.inj h
    rfl
  | deferred marker =>
    simp only [task?] at h
    simp only [completeSingle]
    cases hr : setting.registry.lazyResolver invocation.descriptor marker with
    | error error => simp [hr] at h
    | ok resolver =>
      rw [hr] at h
      obtain rfl := Option.some.inj h
      rfl
  | value | object | collection | list => cases h

/-- In its turn a field queues nothing before its value is completed. -/
theorem pending_turn (setting : Setting W O C T) (frame : Frame W O C T)
    (child : Node (Definition W O C T)) (known : Option (Page O)) (state : State W O C T) :
    (turn setting frame child known state).state.pending = state.pending := by
  have hwrite : ∀ (state : State W O C T) (path : Path) (value : Json),
      (state.write path value).pending = state.pending := by
    intro state path value
    simp only [State.write, State.write?]
    cases state.data.setAt? path value <;> rfl
  simp only [turn]
  cases child.isTypename with
  | true => exact hwrite ..
  | false =>
    cases child.definition? with
    | none => rfl
    | some definition =>
      simp only [Bool.false_eq_true, if_false]
      generalize resolveField setting frame definition.descriptor
        (definition.descriptor.coerceArguments child.arguments setting.vars) known state.world
        = result
      obtain ⟨error | value, known', world'⟩ := result
      · simp only
        generalize failsFrame setting frame error known' world' = failure
        obtain ⟨_ | _, known'', world''⟩ := failure
        · rfl
        · exact hwrite ..
      · rfl

/-- Completing an item queues behind what was queued before the list, and before what the list
leaves in the queue. -/
theorem Completion.Item.queue (h : Item setting call inner) :
    call.state.pending <+: inner.state.pending
      ∧ (inner.run setting).pending <+: (call.run setting).pending := by
  cases h with | @intro item before after value blank ht hl hw =>
  have hitems : ∀ (items : List (FieldValue O C T × Nat)) (state : State W O C T),
      state.pending
        <+: (completeItems setting call.invocation item call.path items state).pending :=
    fun items state =>
      (Queues.foldl (fun state item => queues_complete ..) items state).pending_grows
  refine ⟨?_, ?_⟩
  · have hwrite : Queues (fun _ => True) call.state blank := queues_write? hw
    exact hwrite.pending_grows.trans (hitems ..)
  · rw [Completion.run_eq_completeItems ht hl hw]
    exact hitems ..

/-- The value of a field queues behind what was queued before the fields, and before what they
leave in the queue. -/
theorem FieldCalls.queue (h : FieldCalls setting frame children known state call) :
    state.pending <+: call.state.pending
      ∧ (call.run setting).pending
        <+: (resolveFields setting frame children known state).pending := by
  induction h with
  | @now child rest known known' state call ht =>
    have hturn := pending_turn setting frame child known state
    rw [resolveFields_turn]
    rw [ht] at hturn ⊢
    exact ⟨hturn ▸ List.prefix_refl _, (queues_resolveFields ..).pending_grows⟩
  | @next child rest known known' state first call ht hc ih =>
    have hturn := pending_turn setting frame child known state
    rw [resolveFields_turn]
    rw [ht] at hturn ⊢
    have hfirst : state.pending <+: (first.run setting).pending :=
      hturn ▸ (queues_complete ..).pending_grows
    exact ⟨hfirst.trans ih.1, ih.2⟩
  | @pass child rest known known' state state' call ht hc ih =>
    have hturn := pending_turn setting frame child known state
    rw [resolveFields_turn]
    rw [ht] at hturn ⊢
    have hpass : state'.pending = state.pending := hturn
    exact ⟨hpass ▸ ih.1, ih.2⟩

/-- Whatever is completed queues behind what was queued at the moment, and before what is queued
at the next one. -/
theorem Calls.queue (hm : Move setting m next) (hc : Calls setting m call) :
    m.state.pending <+: call.state.pending
      ∧ (call.run setting).pending <+: next.state.pending := by
  induction hc with
  | @outcome rest pending value hn hs =>
    obtain rfl := hm.eq_of_next? hn
    rw [← data_next hn] at hs
    obtain ⟨old, hold⟩ := Option.isSome_iff_exists.1 hs
    refine ⟨(pending_next hn).symm ▸ List.prefix_refl _, ?_⟩
    simp [Work.run, apply, hold, Completion.run]
  | @field rest frame children fields call hn hchildren hs hf =>
    obtain rfl := hm.eq_of_next? hn
    obtain ⟨hbefore, hafter⟩ := hf.queue
    refine ⟨?_, ?_⟩
    · have hwrite : Queues (fun _ => True) rest.state (rest.state.write frame.path
          (.object (placeholders fields
            ((children.filter (·.isIncluded setting.vars)).map Node.key)))) :=
        queues_write ..
      exact (pending_next hn ▸ hwrite.pending_grows).trans hbefore
    · simpa only [Work.run, resolveFrame, hchildren, data_next hn, hs] using hafter
  | item _ hi ih =>
    exact ⟨ih.1.trans hi.queue.1, hi.queue.2.trans ih.2⟩

/-- A call of a value happens at a moment when something is next. -/
theorem Calls.next?_ne_none (hc : Calls setting m call) : m.next? ≠ none := by
  induction hc with
  | outcome hn | field hn => simp [hn]
  | item _ _ ih => exact ih

/-- A task that is completed is one of those that the work queues. -/
theorem Calls.mem_queued (hm : Move setting m next) (hc : Calls setting m call)
    (ht : call.task? setting = some pending) : pending ∈ m.queued setting := by
  obtain ⟨⟨before, hbefore⟩, after, hafter⟩ := hc.queue hm
  have hnext : next.state.pending = m.state.pending ++ m.queued setting := by
    cases hm with
    | work hn => exact pending_run hn
    | drain hnone => exact absurd hnone hc.next?_ne_none
  rw [Completion.pending_of_task? ht, hnext, ← hbefore] at hafter
  have hqueued : before ++ [pending] ++ after = m.queued setting := by
    simpa using hafter
  simp [← hqueued]

end

/-! ## Results are put in place -/

/-- The moment when so many of the results that are due are in place. -/
def Moment.placed (setting : Setting W O C T) (m : Moment W O C T) (count : Nat) :
    Moment W O C T where
  steps := m.steps
  state := (m.due.take count).foldl
    (fun state (pending, outcome) => apply setting state pending outcome) m.state
  due := m.due.drop count

/-- The result at a position is put in the slot of its task, which the results before and after it
leave alone. An error adds itself and changes nothing else. -/
structure Placed (setting : Setting W O C T) (m : Moment W O C T) (i : Nat)
    (pending : Pending W O C T) (outcome : Outcome O C T) : Prop where
  move : Move setting (m.placed setting i) (m.placed setting (i + 1))
  applied : (m.placed setting (i + 1)).state
    = apply setting (m.placed setting i).state pending outcome
  vacant : (m.state.data.at? pending.path).isSome → m.state.data.at? pending.path = some .null
  before : ∀ tail, (m.placed setting i).state.data.at? (pending.path ++ tail)
    = m.state.data.at? (pending.path ++ tail)
  after : ∀ j, i < j → ∀ tail, (m.placed setting j).state.data.at? (pending.path ++ tail)
    = (m.placed setting (i + 1)).state.data.at? (pending.path ++ tail)
  error : ∀ error, outcome = .error error → (m.state.data.at? pending.path).isSome →
    (m.placed setting (i + 1)).state = (m.placed setting i).state.report pending.path error
      FieldError.Code.deferredResolution
  errors : ∃ new, (m.placed setting (i + 1)).state.errors
      = (m.placed setting i).state.errors ++ new
    ∧ ∀ error ∈ new, ∃ slot, error.path = some slot ∧ pending.path <+: slot

section
variable {setting : Setting W O C T} {m : Moment W O C T} {i : Nat} {pending : Pending W O C T}
  {outcome : Outcome O C T} {slot : Path}

/-- Putting outcomes in their slots is putting them there one after the other. -/
theorem applyAll_eq_foldl (tasks : List (Pending W O C T)) (outcomes : List (Outcome O C T))
    (state : State W O C T) :
    applyAll setting tasks outcomes state = (tasks.zip outcomes).foldl
      (fun state (pending, outcome) => apply setting state pending outcome) state := by
  induction tasks generalizing outcomes state with
  | nil => rfl
  | cons first rest ih =>
    cases outcomes with
    | nil => rfl
    | cons outcome outcomes => exact ih ..

/-- Before anything is put in place the moment is what it was. -/
theorem placed_zero (m : Moment W O C T) : m.placed setting 0 = m := rfl

/-- Putting one more result in place is putting it where its task waits. -/
theorem state_placed_succ (h : m.due[i]? = some (pending, outcome)) :
    (m.placed setting (i + 1)).state
      = apply setting (m.placed setting i).state pending outcome := by
  simp [placed, List.take_add_one, h, List.foldl_append]

/-- The next result is put in place. -/
theorem move_placed (h : m.due[i]? = some (pending, outcome)) :
    Move setting (m.placed setting i) (m.placed setting (i + 1)) := by
  obtain ⟨hi, he⟩ := List.getElem?_eq_some_iff.1 h
  have hdue : (m.placed setting i).due = (pending, outcome) :: m.due.drop (i + 1) := by
    rw [placed, List.drop_eq_getElem_cons hi, he]
  have hn : (m.placed setting i).next? = some (.outcome pending outcome,
      { m.placed setting i with due := m.due.drop (i + 1) }) := by
    simp only [next?, hdue]
  have hmove : Move setting _ _ := .work hn
  rw [Work.run, ← state_placed_succ h] at hmove
  exact hmove

/-- A result changes nothing outside of the slot of its task. -/
theorem at?_apply {state : State W O C T}
    (hv : (state.data.at? pending.path).isSome → state.data.at? pending.path = some .null)
    (ha : Path.Apart pending.path slot) :
    (apply setting state pending outcome).data.at? slot = state.data.at? slot := by
  simp only [apply]
  split
  · rfl
  · rename_i hs
    cases outcome with
    | error error => rfl
    | ok value => exact at?_complete (hv (by simpa [Option.isSome_iff_ne_none] using hs)) ha

end

section
variable {setting : Setting W O C T} {tree : SelectionTree (Definition W O C T)} {root : O}
  {world : W} {past : List (Moment W O C T)} {m next : Moment W O C T} {i : Nat}
  {pending : Pending W O C T} {outcome : Outcome O C T} {slot : Path}

/-- The moments between the results of a batch are moments of the execution. -/
theorem Reaches.placed (h : Reaches setting (.start root tree world) past m) (count : Nat) :
    ∃ past', Reaches setting (.start root tree world) past' (m.placed setting count) := by
  induction count with
  | zero => exact ⟨past, h⟩
  | succ count ih =>
    obtain ⟨past', hr⟩ := ih
    cases hdue : m.due[count]? with
    | some result => exact ⟨_, hr.move (move_placed hdue)⟩
    | none =>
      have hle := List.getElem?_eq_none_iff.1 hdue
      have hsame : m.placed setting (count + 1) = m.placed setting count := by
        simp [Moment.placed, List.take_of_length_le, List.drop_eq_nil_of_le, hle,
          Nat.le_succ_of_le hle]
      exact ⟨past', hsame ▸ hr⟩

/-- A task waits until its result is in place. -/
theorem mem_waiting_placed {count : Nat} (h : m.due[i]? = some (pending, outcome))
    (hle : count ≤ i) : pending ∈ (m.placed setting count).waiting := by
  have hmem : (m.due.drop count)[i - count]? = some (pending, outcome) := by
    rw [List.getElem?_drop, Nat.add_sub_cancel' hle, h]
  exact List.mem_append_left _ (List.mem_map.2 ⟨_, List.mem_of_getElem? hmem, rfl⟩)

/-- Results of tasks whose slots lie apart from a slot leave it alone. -/
theorem Reaches.at?_placed (hk : tree.root.KeysDistinct)
    (h : Reaches setting (.start root tree world) past m) (slot : Path) (first more : Nat)
    (ha : ∀ i pending outcome, first ≤ i → i < first + more →
      m.due[i]? = some (pending, outcome) → Path.Apart pending.path slot) :
    (m.placed setting (first + more)).state.data.at? slot
      = (m.placed setting first).state.data.at? slot := by
  induction more with
  | zero => rfl
  | succ more ih =>
    have ih := ih fun i pending outcome hle hlt => ha i pending outcome hle (by omega)
    rw [← ih, ← Nat.add_assoc]
    cases hdue : m.due[first + more]? with
    | some result =>
      obtain ⟨pending, outcome⟩ := result
      obtain ⟨past', hr⟩ := h.placed (first + more)
      rw [state_placed_succ hdue]
      exact at?_apply
        ((hr.ownership hk).waiting pending (mem_waiting_placed hdue (Nat.le_refl _)))
        (ha _ _ _ (Nat.le_add_right ..) (by omega) hdue)
    | none =>
      have hle := List.getElem?_eq_none_iff.1 hdue
      simp [Moment.placed, List.take_of_length_le, hle, Nat.le_succ_of_le hle]

/-- The errors that a result adds belong to slots within that of its task. -/
theorem errors_apply {state : State W O C T}
    (hv : (state.data.at? pending.path).isSome → state.data.at? pending.path = some .null) :
    ∃ new, (apply setting state pending outcome).errors = state.errors ++ new
      ∧ ∀ error ∈ new, ∃ slot, error.path = some slot ∧ pending.path <+: slot := by
  by_cases hs : (state.data.at? pending.path).isSome
  · have hgraft : apply setting state pending outcome
        = state.graft pending.path (Piece.ofOutcome setting pending outcome state.world) :=
      @run_eq_graft _ _ _ _ setting (.outcome pending outcome) state nofun (hv hs)
    have hfits := Piece.fits_ofOutcome setting pending outcome state.world
    refine ⟨_, congrArg State.errors hgraft, fun error he => ?_⟩
    obtain ⟨slot, hslot⟩ := Option.isSome_iff_exists.1 (hfits.labelled error he).1
    have hmark : ((slot, .null) : Mark)
        ∈ (Piece.ofOutcome setting pending outcome state.world).1.marks := by
      rw [Piece.marks_eq]
      exact List.mem_append_left _ (List.mem_filterMap.2 ⟨error, he, by simp [hslot]⟩)
    obtain ⟨rest, hrest, -⟩ := hfits.tidy.holds _ hmark
    exact ⟨slot, hslot, rest, hrest.symm⟩
  · have hnone : (state.data.at? pending.path).isNone := by simpa using hs
    exact ⟨[], by simp [apply, hnone], nofun⟩

/-- Each result of a batch is put in the slot of its own task. -/
theorem Reaches.placed_result (hk : tree.root.KeysDistinct)
    (h : Reaches setting (.start root tree world) past m)
    (hi : m.due[i]? = some (pending, outcome)) :
    Placed setting m i pending outcome := by
  have howns := h.ownership hk
  have hdue : m.due.Pairwise fun a b => Path.Apart a.1.path b.1.path := by
    have hworks := howns.apart
    rw [works, List.append_assoc, List.pairwise_append, List.pairwise_map] at hworks
    exact hworks.1
  have hothers : ∀ j other result, j ≠ i → m.due[j]? = some (other, result) →
      Path.Apart other.path pending.path := by
    intro j other result hne hj
    obtain ⟨hlt, he⟩ := List.getElem?_eq_some_iff.1 hi
    obtain ⟨hlt', he'⟩ := List.getElem?_eq_some_iff.1 hj
    rcases Nat.lt_or_gt_of_ne hne with hji | hij
    · have hapart := List.pairwise_iff_getElem.1 hdue j i hlt' hlt hji
      rwa [he, he'] at hapart
    · have hapart := List.pairwise_iff_getElem.1 hdue i j hlt hlt' hij
      rw [he, he'] at hapart
      exact hapart.symm
  have hvacant : ∀ j, j ≤ i → ((m.placed setting j).state.data.at? pending.path).isSome →
      (m.placed setting j).state.data.at? pending.path = some .null := by
    intro j hle
    obtain ⟨past', hr⟩ := h.placed j
    exact (hr.ownership hk).waiting pending (mem_waiting_placed hi hle)
  have hbefore : ∀ tail, (m.placed setting i).state.data.at? (pending.path ++ tail)
      = m.state.data.at? (pending.path ++ tail) := by
    intro tail
    have hstays := h.at?_placed hk (pending.path ++ tail) 0 i fun j other result _ hlt hd =>
      (hothers j other result (by omega) hd).append_right tail
    rwa [placed_zero, Nat.zero_add] at hstays
  refine
    { move := move_placed hi
      applied := state_placed_succ hi
      vacant := hvacant 0 (Nat.zero_le i)
      before := hbefore
      after := fun j hj tail => ?_
      error := fun error he hs => ?_
      errors := ?_ }
  · obtain ⟨more, rfl⟩ := Nat.exists_eq_add_of_le hj
    exact h.at?_placed hk (pending.path ++ tail) (i + 1) more
      fun j other result hle _ hd => (hothers j other result (by omega) hd).append_right tail
  · have hexists : ((m.placed setting i).state.data.at? pending.path).isSome := by
      have hsame := hbefore []
      rw [List.append_nil] at hsame
      rwa [hsame]
    rw [state_placed_succ hi, he, apply,
      if_neg (by simpa [Option.isSome_iff_ne_none] using hexists)]
  · rw [state_placed_succ hi]
    exact errors_apply (hvacant i (Nat.le_refl i))

/-! ## One drain step -/

/-- The tasks of a batch are started in order and none twice, all of them unless the batch is
cancelled, and the result at a position is that of the task at the position. -/
def StartsInOrder (setting : Setting W O C T) (fuel : Nat) (m : Moment W O C T)
    (batch : Batch (Outcome O C T)) (after : W) : Prop :=
  ∃ count ≤ m.state.pending.length, (batch = .cancelled ∨ count = m.state.pending.length)
    ∧ Polling.drain (Polling.noting setting.host.poll) (setting.host.cancelled ∘ Prod.fst)
        setting.registry.configuration.drainMode fuel
        (Polling.numbered 0 (m.state.pending.map Pending.task)) (m.state.world, [])
      = some (batch.numbered 0, after, List.range count)

/-- A drain step forces what is queued while nothing else is open, and pairs each task with its
result. All of them in place is the state that the execution goes on from. -/
structure DrainStep (setting : Setting W O C T) (m next : Moment W O C T) : Prop where
  idle : m.due = [] ∧ m.state.frontier = []
  tasks : next.due.map Prod.fst = m.state.pending
  results : ∃ fuel after,
    drain setting fuel m.state = some (.completed (next.due.map Prod.snd), after)
      ∧ (next.placed setting next.due.length).state
        = applyAll setting m.state.pending (next.due.map Prod.snd)
          { m.state with world := after, pending := [] }
  placed : ∀ i pending outcome, next.due[i]? = some (pending, outcome) →
    Placed setting next i pending outcome

/-- Where nothing is next a move is a drain step. -/
theorem exists_drained (hn : m.next? = none) (hm : Move setting m next) :
    ∃ fuel outcomes after, drain setting fuel m.state = some (.completed outcomes, after)
      ∧ next = m.drained outcomes after := by
  cases hm with
  | work hwork => simp [hn] at hwork
  | drain _ _ _ hd => exact ⟨_, _, _, hd, rfl⟩

/-- Each drain step of an execution forces the tasks that are queued, in order, and pairs them with
their results. -/
theorem Reaches.drainStep (hk : tree.root.KeysDistinct)
    (h : Reaches setting (.start root tree world) past m) (hn : m.next? = none)
    (hm : Move setting m next) : DrainStep setting m next := by
  have hplaced : ∀ i pending outcome, next.due[i]? = some (pending, outcome) →
      Placed setting next i pending outcome :=
    fun _ _ _ hi => (h.move hm).placed_result hk hi
  obtain ⟨fuel, outcomes, after, hd, rfl⟩ := exists_drained hn hm
  have hlength := length_outcomes hd
  have hresults : (m.drained outcomes after).due.map Prod.snd = outcomes :=
    List.map_snd_zip (Nat.le_of_eq hlength)
  refine
    { idle := next?_eq_none hn
      tasks := List.map_fst_zip (Nat.le_of_eq hlength.symm)
      results := ⟨fuel, after, by rw [hresults, hd], ?_⟩
      placed := hplaced }
  rw [hresults, Moment.placed, List.take_length, applyAll_eq_foldl, drained]

/-- Tasks are forced in batches. Whenever a batch is forced no object is queued; what was queued
since the last drain step, whatever value it comes from, is forced in the next one, and nothing
else; and the results are put in place in the order of the batch, each in the slot of its task. An
execution that is not stopped leaves no task behind. -/
theorem execute_batches (hk : tree.root.KeysDistinct) :
    (∀ steps state, AfterSteps setting tree.root.height (.initial root tree world) steps state →
      state.frontier = [])
    ∧ (∀ past m, Reaches setting (.start root tree world) past m → Batched setting past m
      ∧ (m.state.pending.Pairwise fun pending other => Path.Apart pending.path other.path)
      ∧ (∀ next, Move setting m next →
        (∀ call pending, Calls setting m call → call.task? setting = some pending →
          pending ∈ m.queued setting)
        ∧ (m.next? = none → DrainStep setting m next))
      ∧ ∀ fuel batch after, drain setting fuel m.state = some (batch, after) →
        StartsInOrder setting fuel m batch after)
    ∧ ∀ fuel answer after, execute setting tree root fuel world = some (answer, after) →
      ∃ past last stop, Reaches setting (.start root tree world) past last
        ∧ answer.data = some last.state.data ∧ Ends setting last stop
        ∧ (stop = none → last.state.pending = []) := by
  refine ⟨fun steps state h => h.frontier_eq_nil (low_initial tree root world), ?_, ?_⟩
  · intro past m hr
    have hapart := (hr.ownership hk).apart
    rw [works, List.pairwise_append, List.pairwise_map (f := Work.task)] at hapart
    refine ⟨hr.batched, hapart.2.1, fun next hm => ⟨fun call pending hc ht => ?_, fun hn => ?_⟩, ?_⟩
    · exact hc.mem_queued hm ht
    · exact hr.drainStep hk hn hm
    · intro fuel batch after hd
      obtain ⟨count, hle, hall, hnoting⟩ := Polling.drain_noting hd
      rw [List.length_map] at hle hall
      exact ⟨count, hle, hall, hnoting⟩
  · intro fuel answer after h
    obtain ⟨past, last, hr, hdata, stop, -, hends⟩ := execute_eq_some hk h
    refine ⟨past, last, stop, hr, hdata, hends, ?_⟩
    rintro rfl
    cases hends with
    | finished hw => simpa [works] using (List.append_eq_nil_iff.1 hw).2

end

/-- A host of tasks that are ready at once: one with an error, one with another task, and the
others with a value. -/
def namesSetting : Setting Unit Unit Unit Nat :=
  bareSetting fun task =>
    .ready (match task with
      | 0 => .error (.new "no")
      | 1 => .ok (.lazy 2)
      | _ => .ok (.value (.string "done")))

/-- A field that is answered with a list of two tasks. -/
def namesField : Node (Definition Unit Unit Unit Nat) :=
  { Node.ofField ⟨0, none, "names", [], [], "Query", .list (.named "String")⟩ false with
    definitions := [⟨.default "Query" "names",
      { strategy := .custom fun _ _ => pure (.ok (.list [.lazy 0, .lazy 1])) }⟩] }

/-- The selection of that field. -/
def namesTree : SelectionTree (Definition Unit Unit Unit Nat) :=
  ⟨.query, { Node.root "Query" with buckets := [⟨"Query", [namesField]⟩] }⟩

/-- The tree of the two names has one field. -/
theorem namesTree_keysDistinct : namesTree.root.KeysDistinct :=
  Node.keysDistinct_of_bucket rfl (by decide)
    (by simpa using (Node.keysDistinct_of_leaf rfl : namesField.KeysDistinct))

/-- The moment when both tasks are queued. -/
def namesMoment : Moment Unit Unit Unit Nat where
  steps := 0
  state := resolveFrame namesSetting ⟨[], .object (.host ()), "Query", namesTree.root⟩
    { State.initial () namesTree () with frontier := [] }
  due := []

/-- The error of the first item leaves the second one alone, and the task that the second one is
answered with is forced in a drain step of its own. -/
theorem execute_batches_namesTree :
    namesTree.root.KeysDistinct
      ∧ ∃ past next, Reaches namesSetting (.start () namesTree ()) past namesMoment
        ∧ Move namesSetting namesMoment next
        ∧ namesMoment.state.pending.map Pending.path
          = [[.key "names", .index 0], [.key "names", .index 1]]
        ∧ DrainStep namesSetting namesMoment next
        ∧ Batched namesSetting (namesMoment :: past) next
        ∧ ∃ answer, execute namesSetting namesTree () 3 () = some (answer, ())
          ∧ answer.data = some (.object [("names", .array [.null, .string "done"])])
          ∧ answer.errors.map ResponseError.path = [some [.key "names", .index 0]] := by
  obtain ⟨-, hmoments, -⟩ := @execute_batches _ _ _ _ namesSetting namesTree () ()
    namesTree_keysDistinct
  have hroot : Reaches namesSetting (.start () namesTree ()) _ _ := .move .start (.work rfl)
  obtain ⟨past, hreach⟩ : ∃ past, Reaches namesSetting (.start () namesTree ()) past namesMoment :=
    ⟨_, hroot⟩
  have hdrain : Move namesSetting namesMoment _ :=
    @Move.drain _ _ _ _ namesSetting namesMoment 1 _ _ rfl (List.cons_ne_nil _ _) rfl rfl
  obtain ⟨-, -, hnext, -⟩ := hmoments _ _ hreach
  have hafter := (hmoments _ _ (hreach.move hdrain)).1
  exact ⟨namesTree_keysDistinct, past, _, hreach, hdrain, rfl, (hnext _ hdrain).2 rfl, hafter,
    _, rfl, rfl, rfl⟩

end QueryEngine.Execution
