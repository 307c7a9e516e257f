import Mathlib.Logic.Hydra
import QueryEngine.Proofs.Execution.Course
import QueryEngine.Proofs.Selection.Within

/-!
# Phases

Between two drain steps an execution takes objects from its queue, one after the other, until none
is left. Resolving an object puts objects at the end of the queue, but only ones of nodes below its
own (`queues_resolveFrame`), so the heights of the nodes in the queue form a smaller multiset each
time and no phase goes on for ever (`wellFounded_pops`), whatever the resolvers answer: each comes
to an end (`exists_phase`), and to one only (`Phase.unique`). A queue that is worked through level
by level comes to that end (`phase_resolveQueued`).
-/

namespace QueryEngine.Execution

variable {W O C T : Type}

/-! ## What is queued -/

/-- The second state has everything queued that the first one has, and after it only things that
belong to nodes of some kind. -/
structure Queues (kind : Node (Definition W O C T) → Prop) (before after : State W O C T) :
    Prop where
  frames : ∃ new, after.frontier = before.frontier ++ new ∧ ∀ frame ∈ new, kind frame.node
  tasks : ∃ new, after.pending = before.pending ++ new
    ∧ ∀ pending ∈ new, kind pending.invocation.node

section
variable {kind other : Node (Definition W O C T) → Prop} {before between after : State W O C T}

/-- A state with the same queues has nothing new queued. -/
theorem Queues.of_eq (hf : after.frontier = before.frontier) (hp : after.pending = before.pending) :
    Queues kind before after :=
  ⟨⟨[], by simp [hf]⟩, ⟨[], by simp [hp]⟩⟩

/-- Nothing is queued where nothing happens. -/
theorem Queues.refl (state : State W O C T) : Queues kind state state := .of_eq rfl rfl

/-- What is queued first and what is queued then is queued altogether. -/
theorem Queues.trans (h : Queues kind before between) (h' : Queues kind between after) :
    Queues kind before after := by
  obtain ⟨⟨frames, hf, hkf⟩, tasks, ht, hkt⟩ := h
  obtain ⟨⟨frames', hf', hkf'⟩, tasks', ht', hkt'⟩ := h'
  refine ⟨⟨frames ++ frames', by rw [hf', hf, List.append_assoc], ?_⟩,
    ⟨tasks ++ tasks', by rw [ht', ht, List.append_assoc], ?_⟩⟩
  · exact fun frame hm => (List.mem_append.1 hm).elim (hkf frame) (hkf' frame)
  · exact fun pending hm => (List.mem_append.1 hm).elim (hkt pending) (hkt' pending)

/-- What belongs to nodes of one kind belongs to nodes of any wider kind. -/
theorem Queues.imp (h : Queues kind before after) (hk : ∀ node, kind node → other node) :
    Queues other before after := by
  obtain ⟨⟨frames, hf, hkf⟩, tasks, ht, hkt⟩ := h
  exact ⟨⟨frames, hf, fun frame hm => hk _ (hkf frame hm)⟩,
    ⟨tasks, ht, fun pending hm => hk _ (hkt pending hm)⟩⟩

/-- Steps that queue things of one kind queue things of that kind when taken in a row. -/
theorem Queues.foldl {α : Type} {step : State W O C T → α → State W O C T}
    (h : ∀ state a, Queues kind state (step state a)) (items : List α) (state : State W O C T) :
    Queues kind state (items.foldl step state) := by
  induction items generalizing state with
  | nil => exact .refl state
  | cons item rest ih => exact (h state item).trans (ih _)

end

section
variable {kind : Node (Definition W O C T) → Prop} (state : State W O C T) (path : Path)

/-- Writing queues nothing. -/
theorem queues_write (value : Json) : Queues kind state (state.write path value) := by
  simp only [State.write, State.write?]
  cases state.data.setAt? path value <;> exact .of_eq rfl rfl

/-- Reporting an error queues nothing. -/
theorem queues_report (error : FieldError) (code : String) :
    Queues kind state (state.report path error code) :=
  .of_eq rfl rfl

/-- Rejecting a value queues nothing. -/
theorem queues_reject (message : String) : Queues kind state (state.reject path message) :=
  (queues_write state path .null).trans (queues_report ..)

/-- Writing a null queues nothing. -/
theorem queues_writeNull (type : TypeRef) : Queues kind state (state.writeNull path type) := by
  simp only [State.writeNull]
  split
  · exact (queues_write state path .null).trans (queues_report ..)
  · exact queues_write state path .null

/-- Writing where the slot may be gone queues nothing. -/
theorem queues_write? {state : State W O C T} {path : Path} {value : Json} {after : State W O C T}
    (h : state.write? path value = some after) : Queues kind state after := by
  obtain ⟨data, -, rfl⟩ := Option.map_eq_some_iff.1 h
  exact .of_eq rfl rfl

/-- A task is queued for its own node. -/
theorem queues_enqueue {pending : Pending W O C T} (h : kind pending.invocation.node) :
    Queues kind state (state.enqueue pending) :=
  ⟨⟨[], by simp [State.enqueue]⟩, ⟨[pending], rfl, by simpa using h⟩⟩

/-- An object is queued for its own node. -/
theorem queues_push {frame : Frame W O C T} (h : kind frame.node) :
    Queues kind state (state.push frame) :=
  ⟨⟨[frame], rfl, by simpa using h⟩, ⟨[], by simp [State.push]⟩⟩

end

section
variable (setting : Setting W O C T) (invocation : Invocation W O C T)

/-- Completing an object queues it for the node of its field. -/
theorem queues_completeObject (type : TypeRef) (path : Path) (source : Source W O C)
    (state : State W O C T) :
    Queues (· = invocation.node) state
      (completeObject setting invocation type path source state) := by
  simp only [completeObject]
  split
  · exact queues_reject ..
  · split
    · exact queues_reject ..
    · split
      · rename_i hw
        exact (queues_write? hw).trans (queues_push _ rfl)
      · exact .refl state

/-- Completing a single value queues objects and tasks for the node of its field. -/
theorem queues_completeSingle (type : TypeRef) (path : Path) (value : FieldValue O C T)
    (state : State W O C T) :
    Queues (· = invocation.node) state
      (completeSingle setting invocation type path value state) := by
  cases value with
  | lazy task => exact queues_enqueue _ rfl
  | deferred marker =>
    simp only [completeSingle]
    split
    · exact queues_report ..
    · refine Queues.trans ?_ (queues_enqueue _ rfl)
      exact .of_eq rfl rfl
  | value json =>
    cases json with
    | null => exact queues_writeNull ..
    | array items =>
      simp only [completeSingle]
      split
      · exact queues_completeObject ..
      · exact queues_write ..
    | object fields =>
      simp only [completeSingle]
      split
      · exact queues_completeObject ..
      · exact queues_write ..
    | bool | number | string => exact queues_write ..
  | object object =>
    simp only [completeSingle]
    split
    · exact queues_completeObject ..
    · exact queues_reject ..
  | collection collection =>
    simp only [completeSingle]
    split
    · exact queues_completeObject ..
    · exact queues_reject ..
  | list items => exact queues_reject ..

/-- Completing a value queues objects and tasks of the field it is the value of. -/
theorem queues_complete (type : TypeRef) (path : Path) (value : FieldValue O C T)
    (state : State W O C T) :
    Queues (· = invocation.node) state (complete setting invocation type path value state) := by
  induction type generalizing path value state with
  | named name | nonNullNamed name => exact queues_completeSingle ..
  | list item ih | nonNullList item ih =>
    simp only [complete]
    split
    · exact queues_completeSingle ..
    · split
      · exact .refl state
      · rename_i hw
        exact (queues_write? hw).trans (.foldl (fun state item => ih ..) _ _)

/-- Resolving fields queues objects and tasks of these fields. -/
theorem queues_resolveFields (frame : Frame W O C T) (children : List (Node (Definition W O C T)))
    (known : Option (Page O)) (state : State W O C T) :
    Queues (· ∈ children) state (resolveFields setting frame children known state) := by
  induction children generalizing known state with
  | nil => exact .refl state
  | cons child rest ih =>
    have ih := fun known state => (ih known state).imp fun _ => List.mem_cons_of_mem child
    simp only [resolveFields]
    split
    · exact (queues_write ..).trans (ih ..)
    · cases child.definition? with
      | none => exact (queues_report ..).trans (ih ..)
      | some definition =>
        simp only
        generalize resolveField setting frame definition.descriptor
          (definition.descriptor.coerceArguments child.arguments setting.vars) known state.world
          = result
        obtain ⟨error | value, known', world'⟩ := result
        · simp only
          generalize failsFrame setting frame error known' world' = failure
          obtain ⟨_ | _, known'', world''⟩ := failure
          · simp only [Bool.false_eq_true, if_false]
            refine Queues.trans ?_ (ih ..)
            exact .of_eq rfl rfl
          · simp only [if_true]
            refine Queues.trans (.trans ?_ (queues_write ..)) (queues_report ..)
            exact .of_eq rfl rfl
        · simp only
          refine Queues.trans ?_ (ih ..)
          refine Queues.trans ?_ ((queues_complete ..).imp ?_)
          · exact .of_eq rfl rfl
          · rintro _ rfl
            exact List.mem_cons_self ..

/-- Resolving an object queues objects and tasks of nodes right below its own. -/
theorem queues_resolveFrame (frame : Frame W O C T) (state : State W O C T) :
    Queues (Node.IsChild frame.node) state (resolveFrame setting frame state) := by
  simp only [resolveFrame]
  split
  · exact .refl state
  · rename_i children hc
    split
    · refine (queues_write ..).trans ((queues_resolveFields ..).imp fun node hm => ?_)
      exact Node.isChild_of_mem hc (List.mem_filter.1 hm).1
    · exact .refl state

end

/-! ## What is queued before -/

/-- The state with objects in front of its queue. -/
def State.behind (frames : List (Frame W O C T)) (state : State W O C T) : State W O C T :=
  { state with frontier := frames ++ state.frontier }

section
variable {frames : List (Frame W O C T)} (state : State W O C T) (path : Path)

/-- Writing does not look at what is queued in front. -/
theorem write?_behind (value : Json) :
    (state.behind frames).write? path value = (state.write? path value).map (·.behind frames) := by
  simp only [State.write?, Option.map_map]
  rfl

@[simp] theorem write_behind (value : Json) :
    (state.behind frames).write path value = (state.write path value).behind frames := by
  simp only [State.write, write?_behind]
  cases state.write? path value <;> rfl

@[simp] theorem report_behind (error : FieldError) (code : String) :
    (state.behind frames).report path error code = (state.report path error code).behind frames :=
  rfl

@[simp] theorem reject_behind (message : String) :
    (state.behind frames).reject path message = (state.reject path message).behind frames := by
  simp only [State.reject, write_behind, report_behind]

@[simp] theorem writeNull_behind (type : TypeRef) :
    (state.behind frames).writeNull path type = (state.writeNull path type).behind frames := by
  simp only [State.writeNull, write_behind, report_behind]
  split <;> rfl

@[simp] theorem enqueue_behind (pending : Pending W O C T) :
    (state.behind frames).enqueue pending = (state.enqueue pending).behind frames := rfl

@[simp] theorem push_behind (frame : Frame W O C T) :
    (state.behind frames).push frame = (state.push frame).behind frames := by
  simp [State.push, State.behind]

end

section
variable (setting : Setting W O C T) {frames : List (Frame W O C T)}

@[simp] theorem completeObject_behind (invocation : Invocation W O C T) (type : TypeRef)
    (path : Path) (source : Source W O C) (state : State W O C T) :
    completeObject setting invocation type path source (state.behind frames)
      = (completeObject setting invocation type path source state).behind frames := by
  simp only [completeObject, reject_behind, write?_behind]
  split
  · rfl
  · split
    · rfl
    · cases state.write? path (.object []) with
      | none => rfl
      | some state => exact push_behind ..

@[simp] theorem completeSingle_behind (invocation : Invocation W O C T) (type : TypeRef)
    (path : Path) (value : FieldValue O C T) (state : State W O C T) :
    completeSingle setting invocation type path value (state.behind frames)
      = (completeSingle setting invocation type path value state).behind frames := by
  cases value with
  | lazy task | list items => simp [completeSingle]
  | deferred marker =>
    simp only [completeSingle]
    split <;> rfl
  | value json =>
    cases json with
    | array items | object fields =>
      simp only [completeSingle]
      split <;> simp
    | null | bool | number | string => simp [completeSingle]
  | object object | collection collection =>
    simp only [completeSingle]
    split <;> simp

/-- What is queued before plays no part in completing a value. -/
@[simp] theorem complete_behind (invocation : Invocation W O C T) (type : TypeRef)
    (path : Path) (value : FieldValue O C T) (state : State W O C T) :
    complete setting invocation type path value (state.behind frames)
      = (complete setting invocation type path value state).behind frames := by
  induction type generalizing path value state with
  | named name | nonNullNamed name => exact completeSingle_behind ..
  | list item ih | nonNullList item ih =>
    simp only [complete, completeSingle_behind, write?_behind]
    split
    · rfl
    · rename_i items _
      cases state.write? path (.array (List.replicate items.length .null)) with
      | none => rfl
      | some state =>
        simp only [Option.map_some]
        generalize items.zipIdx = items
        induction items generalizing state with
        | nil => rfl
        | cons item rest ihItems =>
          simp only [List.foldl_cons, ih]
          exact ihItems _

/-- Resolving fields does not look at what is queued in front. -/
theorem resolveFields_behind (frame : Frame W O C T) (children : List (Node (Definition W O C T)))
    (known : Option (Page O)) (state : State W O C T) :
    resolveFields setting frame children known (state.behind frames)
      = (resolveFields setting frame children known state).behind frames := by
  induction children generalizing known state with
  | nil => rfl
  | cons child rest ih =>
    simp only [resolveFields, write_behind, report_behind, ih]
    split
    · rfl
    · cases child.definition? with
      | none => rfl
      | some definition =>
        have hworld : (state.behind frames).world = state.world := rfl
        simp only [hworld]
        generalize resolveField setting frame definition.descriptor
          (definition.descriptor.coerceArguments child.arguments setting.vars) known state.world
          = result
        obtain ⟨error | value, known', world'⟩ := result
        · simp only
          generalize failsFrame setting frame error known' world' = failure
          obtain ⟨_ | _, known'', world''⟩ := failure
          · exact ih known'' ({ state with world := world'' }.report _ error _)
          · exact congrArg (State.report · frame.path error FieldError.Code.fieldResolution)
              (write_behind { state with world := world'' } frame.path .null)
        · have hstate : { state.behind frames with world := world' }
              = { state with world := world' }.behind frames := rfl
          simp only [hstate, complete_behind, ih]

/-- What is queued before plays no part in resolving an object. -/
theorem resolveFrame_behind (frame : Frame W O C T) (state : State W O C T) :
    resolveFrame setting frame (state.behind frames)
      = (resolveFrame setting frame state).behind frames := by
  have hdata : (state.behind frames).data = state.data := rfl
  simp only [resolveFrame, hdata, write_behind, resolveFields_behind]
  split
  · rfl
  · split <;> rfl

end

/-! ## One object after the other -/

/-- The state after the first object of the queue is resolved, if there is one. -/
def pop? (setting : Setting W O C T) (state : State W O C T) : Option (State W O C T) :=
  match state.frontier with
  | [] => none
  | frame :: rest => some (resolveFrame setting frame { state with frontier := rest })

/-- Objects are taken from the queue until none is left: how many, and the state at the end. -/
inductive Phase (setting : Setting W O C T) : Nat → State W O C T → State W O C T → Prop
  | done {state : State W O C T} (h : pop? setting state = none) : Phase setting 0 state state
  | pop {count : Nat} {state next last : State W O C T} (h : pop? setting state = some next)
    (hp : Phase setting count next last) : Phase setting (count + 1) state last

/-- The heights of the nodes of the objects that are queued. -/
def State.heights (state : State W O C T) : Multiset Nat :=
  state.frontier.map (·.node.height)

section
variable {setting : Setting W O C T}

/-- One object is exchanged for any number of lower ones. -/
theorem cutExpand_of_pop {state next : State W O C T} (h : pop? setting state = some next) :
    Relation.CutExpand (· < ·) next.heights state.heights := by
  obtain ⟨world, data, errors, frontier, pending⟩ := state
  cases frontier with
  | nil => cases h
  | cons frame rest =>
    obtain rfl := Option.some.inj h
    obtain ⟨⟨new, hnew, hbelow⟩, -⟩ :=
      queues_resolveFrame setting frame ⟨world, data, errors, rest, pending⟩
    refine ⟨(new.map (·.node.height) : Multiset Nat), frame.node.height, ?_, ?_⟩
    · intro height hm
      obtain ⟨inner, hi, rfl⟩ := List.mem_map.1 (Multiset.mem_coe.1 hm)
      exact Node.height_lt_of_isChild (hbelow inner hi)
    · simp only [State.heights, hnew, List.map_append, List.map_cons, ← Multiset.coe_add,
        ← Multiset.cons_coe, ← Multiset.singleton_add]
      rw [add_comm, add_assoc]

/-- No phase goes on for ever. -/
theorem wellFounded_pops (setting : Setting W O C T) :
    WellFounded fun next state => pop? setting state = some next :=
  Subrelation.wf (r := InvImage (Relation.CutExpand (· < ·)) State.heights)
    (fun h => cutExpand_of_pop h) (InvImage.wf _ (WellFounded.cutExpand Nat.lt_wfRel.wf))

/-- Every phase ends. -/
theorem exists_phase (setting : Setting W O C T) (state : State W O C T) :
    ∃ count last, Phase setting count state last := by
  induction state using (wellFounded_pops setting).induction with
  | _ state ih =>
    cases h : pop? setting state with
    | none => exact ⟨0, state, .done h⟩
    | some next =>
      obtain ⟨count, last, hp⟩ := ih next h
      exact ⟨count + 1, last, .pop h hp⟩

/-- A phase ends with an empty queue. -/
theorem Phase.frontier_eq_nil {count : Nat} {state last : State W O C T}
    (h : Phase setting count state last) : last.frontier = [] := by
  induction h with
  | @done state h =>
    obtain ⟨world, data, errors, frontier, pending⟩ := state
    cases frontier with
    | nil => rfl
    | cons frame rest => cases h
  | pop _ _ ih => exact ih

/-- There is one way through a phase, so it has one length and one end. -/
theorem Phase.unique {count other : Nat} {state a b : State W O C T}
    (ha : Phase setting count state a) (hb : Phase setting other state b) :
    count = other ∧ a = b := by
  induction ha generalizing other with
  | done h =>
    cases hb with
    | done => exact ⟨rfl, rfl⟩
    | pop h' => cases h.symm.trans h'
  | pop h _ ih =>
    cases hb with
    | done h' => cases h.symm.trans h'
    | pop h' hp =>
      obtain rfl := Option.some.inj (h.symm.trans h')
      obtain ⟨rfl, rfl⟩ := ih hp
      exact ⟨rfl, rfl⟩

/-! ## Level by level -/

/-- The objects in front of a queue are resolved first, one after the other. -/
theorem Phase.behind (frames : List (Frame W O C T)) {count : Nat} {state last : State W O C T}
    (h : Phase setting count
      (frames.foldl (fun state frame => resolveFrame setting frame state) state) last) :
    Phase setting (count + frames.length) (state.behind frames) last := by
  induction frames generalizing state with
  | nil => exact h
  | cons frame rest ih =>
    refine .pop ?_ (ih h)
    exact congrArg some (resolveFrame_behind setting frame state)

/-- Resolving objects queues lower ones. -/
theorem reach_foldl {levels : Nat} {frames : List (Frame W O C T)} {state : State W O C T}
    (hf : Reach (levels + 1) frames) (hs : Reach levels state.frontier) :
    Reach levels
      (frames.foldl (fun state frame => resolveFrame setting frame state) state).frontier := by
  induction frames generalizing state with
  | nil => exact hs
  | cons frame rest ih =>
    refine ih (fun other ho => hf other (List.mem_cons_of_mem _ ho)) fun inner hi => ?_
    obtain ⟨⟨new, hnew, hbelow⟩, -⟩ := queues_resolveFrame setting frame state
    rcases List.mem_append.1 (hnew ▸ hi) with hold | hi
    · exact hs inner hold
    · have hlt := Node.height_lt_of_isChild (hbelow inner hi)
      have hle := hf frame (List.mem_cons_self ..)
      omega

/-- A queue that is worked through level by level, with as many levels as its nodes are high, comes
to the end of the phase. -/
theorem phase_resolveQueued (setting : Setting W O C T) {levels : Nat} {state : State W O C T}
    (h : Reach levels state.frontier) :
    ∃ count, Phase setting count state (resolveQueued setting levels state) := by
  induction levels generalizing state with
  | zero =>
    have hnil : state.frontier = [] := by
      refine List.eq_nil_iff_forall_not_mem.2 fun frame hf => ?_
      have hle := h frame hf
      have hpos := frame.node.height_pos
      omega
    exact ⟨0, .done (by simp [pop?, hnil])⟩
  | succ levels ih =>
    rw [resolveQueued]
    split
    · rename_i hnil
      exact ⟨0, .done (by simp [pop?, List.isEmpty_iff.1 hnil])⟩
    · have hstate : ({ state with frontier := [] } : State W O C T).behind state.frontier
          = state := by simp [State.behind]
      have hreach : Reach levels (state.frontier.foldl (fun state frame =>
          resolveFrame setting frame state) { state with frontier := [] }).frontier :=
        reach_foldl h nofun
      obtain ⟨count, hp⟩ := ih hreach
      have hphase := hp.behind state.frontier
      rw [hstate] at hphase
      exact ⟨_, hphase⟩

end

end QueryEngine.Execution
