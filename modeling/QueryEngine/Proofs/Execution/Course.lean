import QueryEngine.Proofs.Execution.Sound

/-!
# The course of an execution

`run` works through the queue of objects level by level and through the outcomes of a drain step as
a list. Both come to doing the open work one after the other (`reaches_resolveQueued`,
`reaches_applyAll`), so a run passes from moment to moment and ends with the data and the errors of
the last one (`run_eq_some`); if nothing stopped it, no work is left (`Ends`).
-/

namespace QueryEngine

/-- No node of a tree is higher than its root. -/
theorem Node.Within.height_le {D : Type} {root node : Node D} (h : Node.Within root node) :
    node.height ≤ root.height := by
  induction h with
  | root => exact Nat.le_refl _
  | child _ hc ih => exact Nat.le_trans (Nat.le_of_lt (Node.height_lt_of_isChild hc)) ih

namespace Execution

variable {W O C T : Type}

/-- How an execution ends: nothing is open, or before a drain step something stops it, or the
drain step is cancelled. -/
inductive Ends (setting : Setting W O C T) (m : Moment W O C T) : Option ExecutionError → Prop
  | finished (h : m.works = []) : Ends setting m none
  | stopped {error : ExecutionError} (h : stop? setting m.steps m.state.world = some error) :
    Ends setting m (some error)
  | cancelled {fuel : Nat} {world : W} (hp : m.state.pending ≠ [])
    (h : drain setting fuel m.state = some (.cancelled, world)) :
    Ends setting m (some .cancelled)

/-- The objects of a queue are not higher than `levels`. -/
def Reach (levels : Nat) (frontier : List (Frame W O C T)) : Prop :=
  ∀ frame ∈ frontier, frame.node.height ≤ levels

section
variable {setting : Setting W O C T} {root : Node (Definition W O C T)}
  {start : Moment W O C T}

/-- The objects below an object belong to lower nodes. -/
theorem height_of_mem_frames_ofFrame {frame inner : Frame W O C T} {world : W}
    (h : inner ∈ (Piece.ofFrame setting frame world).1.frames) :
    inner.node.height < frame.node.height := by
  obtain ⟨child, hc, hn, -⟩ := Piece.mem_frames_ofFrame h
  obtain ⟨hm, -⟩ := List.mem_filter.1 hc
  cases hs : frame.node.children? frame.concrete with
  | none => simp [hs] at hm
  | some children =>
    rw [hn]
    exact Node.height_lt_of_isChild (Node.isChild_of_mem hs (by simpa [hs] using hm))

/-- Resolving a queued object is not affected by the objects queued before, and queues lower ones
only. -/
theorem resolveFrame_cons {past : List (Moment W O C T)} {steps : Nat} {state : State W O C T}
    {frame : Frame W O C T} {others : List (Frame W O C T)} (hk : root.KeysDistinct)
    (h : Sound setting root past
      ⟨steps, { state with frontier := frame :: others ++ state.frontier }, []⟩) :
    let after := resolveFrame setting frame state
    resolveFrame setting frame { state with frontier := others ++ state.frontier }
        = { after with frontier := others ++ after.frontier }
      ∧ ∀ inner ∈ after.frontier, inner ∈ state.frontier
          ∨ inner.node.height < frame.node.height := by
  have hn : (⟨steps, { state with frontier := frame :: others ++ state.frontier }, []⟩ :
      Moment W O C T).next? = some (.object frame,
        ⟨steps, { state with frontier := others ++ state.frontier }, []⟩) := rfl
  rcases h.at?_next hn with hd | hd
  · have hd : state.data.at? frame.path = none := hd
    have hd' : ({ state with frontier := others ++ state.frontier } :
      State W O C T).data.at? frame.path = none := hd
    rw [resolveFrame_of_none setting frame hd, resolveFrame_of_none setting frame hd']
    exact ⟨rfl, fun inner hi => .inl hi⟩
  · have hd : state.data.at? frame.path = some (.object []) := hd
    have hkeys := h.keys_next hk hn frame rfl
    have hd' : ({ state with frontier := others ++ state.frontier } :
      State W O C T).data.at? frame.path = some (.object []) := hd
    rw [resolveFrame_eq_graft setting frame hkeys hd, resolveFrame_eq_graft setting frame hkeys hd']
    refine ⟨by simp [State.graft], ?_⟩
    intro inner hi
    rcases List.mem_append.1 hi with hi | hi
    · exact .inl hi
    · exact .inr (height_of_mem_frames_ofFrame hi)

/-- Resolving objects one after the other is to do the next work each time. -/
theorem reaches_foldl (hk : root.KeysDistinct)
    (hs : ∀ past m, Reaches setting start past m → ∃ all, Sound setting root all m)
    {steps levels : Nat}
    (frames : List (Frame W O C T)) (state : State W O C T) {past : List (Moment W O C T)}
    (h : Reaches setting start past
      ⟨steps, { state with frontier := frames ++ state.frontier }, []⟩)
    (hf : Reach (levels + 1) frames) (hr : Reach levels state.frontier) :
    ∃ past', Reaches setting start past'
        ⟨steps, frames.foldl (fun state frame => resolveFrame setting frame state) state, []⟩
      ∧ Reach levels
        (frames.foldl (fun state frame => resolveFrame setting frame state) state).frontier := by
  induction frames generalizing past state with
  | nil => exact ⟨past, h, hr⟩
  | cons frame others ih =>
    have hn : (⟨steps, { state with frontier := frame :: others ++ state.frontier }, []⟩ :
        Moment W O C T).next? = some (.object frame,
          ⟨steps, { state with frontier := others ++ state.frontier }, []⟩) := rfl
    have hmove := h.move (.work hn)
    obtain ⟨all, hsound⟩ := hs _ _ h
    obtain ⟨he, hinner⟩ := resolveFrame_cons hk hsound
    simp only [Work.run, he] at hmove
    refine ih _ hmove (fun other ho => hf other (List.mem_cons_of_mem _ ho)) ?_
    intro inner hi
    have hheight := hf frame (List.mem_cons_self ..)
    rcases hinner inner hi with hi | hi
    · exact hr inner hi
    · omega

/-- Working through the queue level by level is to do the next work until only tasks are left. -/
theorem reaches_resolveQueued (hk : root.KeysDistinct)
    (hs : ∀ past m, Reaches setting start past m → ∃ all, Sound setting root all m) {steps : Nat}
    (levels : Nat) {past : List (Moment W O C T)} {state : State W O C T}
    (h : Reaches setting start past ⟨steps, state, []⟩) (hr : Reach levels state.frontier) :
    ∃ past', Reaches setting start past' ⟨steps, resolveQueued setting levels state, []⟩
      ∧ (resolveQueued setting levels state).frontier = [] := by
  induction levels generalizing past state with
  | zero =>
    refine ⟨past, h, List.eq_nil_iff_forall_not_mem.2 ?_⟩
    intro frame hf
    have := hr frame hf
    have := frame.node.height_pos
    omega
  | succ levels ih =>
    unfold resolveQueued
    split
    · rename_i he
      exact ⟨past, h, by simpa using he⟩
    · have hstate : { ({ state with frontier := [] } : State W O C T) with
          frontier := state.frontier ++ [] } = state := by simp
      obtain ⟨past', h', hr'⟩ := reaches_foldl hk hs state.frontier
        { state with frontier := [] } (by rwa [hstate]) hr (fun _ hm => by cases hm)
      exact ih h' hr'

/-- At no moment is an object queued that belongs to a higher node than the root. -/
theorem reach_height
    (hs : ∀ past m, Reaches setting start past m → ∃ all, Sound setting root all m)
    {past : List (Moment W O C T)} {m : Moment W O C T} (h : Reaches setting start past m) :
    Reach root.height m.state.frontier := by
  intro frame hf
  obtain ⟨all, hsound⟩ := hs _ _ h
  exact Node.Within.height_le (hsound.within (.object frame) (by simp [Moment.works, hf]))

/-- Putting the outcomes of a batch in their slots is to do the next work each time. -/
theorem reaches_applyAll {steps : Nat} (pending : List (Pending W O C T))
    (outcomes : List (Outcome O C T)) {past : List (Moment W O C T)} {state : State W O C T}
    (h : Reaches setting start past ⟨steps, state, pending.zip outcomes⟩) :
    ∃ past', Reaches setting start past'
      ⟨steps, applyAll setting pending outcomes state, []⟩ := by
  induction pending generalizing outcomes past state with
  | nil => exact ⟨past, h⟩
  | cons first rest ih =>
    cases outcomes with
    | nil => exact ⟨past, h⟩
    | cons outcome outcomes =>
      have hn : (⟨steps, state, (first :: rest).zip (outcome :: outcomes)⟩ :
          Moment W O C T).next?
            = some (.outcome first outcome, ⟨steps, state, rest.zip outcomes⟩) :=
        rfl
      have hmove := h.move (.work hn)
      exact ih outcomes hmove

/-- A run passes from moment to moment and ends with the data and the errors of the last one. -/
theorem run_eq_some (hk : root.KeysDistinct)
    (hs : ∀ past m, Reaches setting start past m → ∃ all, Sound setting root all m)
    {fuel steps : Nat}
    {past : List (Moment W O C T)} {state final : State W O C T} {error : Option ExecutionError}
    (h : Reaches setting start past ⟨steps, state, []⟩)
    (hr : run setting root.height fuel steps state = some (error, final)) :
    ∃ past' last, Reaches setting start past' last ∧ final.data = last.state.data
      ∧ final.errors = last.state.errors ∧ Ends setting last error := by
  induction fuel generalizing steps past state with
  | zero => cases hr
  | succ fuel ih =>
    obtain ⟨past', h', hf⟩ := reaches_resolveQueued hk hs root.height h (reach_height hs h)
    simp only [run] at hr
    split at hr
    · rename_i hp
      cases hr
      exact ⟨past', _, h', rfl, rfl, .finished (by simp [Moment.works, hf, List.isEmpty_iff.1 hp])⟩
    · rename_i hp
      split at hr
      · rename_i hstop
        cases hr
        exact ⟨past', _, h', rfl, rfl, .stopped hstop⟩
      · rename_i hstop
        split at hr
        · cases hr
        · rename_i hd
          cases hr
          exact ⟨past', _, h', rfl, rfl, .cancelled (by simpa using hp) hd⟩
        · rename_i outcomes world hd
          have hmove := h'.move (.drain (by simp [Moment.next?, hf]) (by simpa using hp) hstop hd)
          obtain ⟨past'', h''⟩ := reaches_applyAll _ _ hmove
          exact ih h'' hr

end

/-- An execution that ends passes from moment to moment; its response has the data and the errors
of the last one, and an error of its own if it was stopped. -/
theorem execute_eq_some {setting : Setting W O C T}
    {tree : SelectionTree (Definition W O C T)} (hk : tree.root.KeysDistinct) {root : O}
    {fuel : Nat} {world world' : W} {answer : Response}
    (h : execute setting tree root fuel world = some (answer, world')) :
    ∃ past last, Reaches setting (.start root tree world) past last
      ∧ answer.data = some last.state.data
      ∧ ∃ error : Option ExecutionError,
        answer.errors = last.state.errors ++ (error.map ResponseError.ofExecutionError).toList
          ∧ Ends setting last error := by
  obtain ⟨⟨error, final⟩, hr, he⟩ := Option.map_eq_some_iff.1 h
  obtain ⟨past, last, hreach, hd, herr, hn⟩ :=
    run_eq_some hk (fun _ _ hm => ⟨_, hm.sound hk⟩) .start hr
  cases he
  exact ⟨past, last, hreach, by simp [response, hd], error, by simp [response, herr], hn⟩

/-- A setting with a schema without types. Its host has nothing but tasks, and polling them changes
nothing. -/
def bareSetting {W T : Type} (poll : T → Progress T (Outcome Unit Unit T)) :
    Setting W Unit Unit T where
  host :=
    { typeName := fun _ => "Query"
      lookup := fun _ _ world => (none, world)
      call := fun _ _ _ world => (none, world)
      length := fun _ => 0
      element? := fun _ _ => none
      elements := fun _ => []
      capability := fun _ _ _ world => (none, world)
      poll := fun task world => (poll task, world)
      cancelled := fun _ => false }
  registry := { schema := ⟨[], "Query", none, none⟩ }
  vars := []

/-- The type of a list that has no nulls. -/
def fullList : TypeRef := .list (.nonNullNamed "String")

/-- A host of one field, which answers with a list that has a null where none may be. -/
def gapSetting : Setting Unit Unit Unit Unit :=
  let bare : Setting Unit Unit Unit Unit := bareSetting fun _ => .ready (.ok .null)
  let names : FieldDef := ⟨"names", fullList, []⟩
  { bare with
    host := { bare.host with
      call := fun _ _ _ world =>
        (some (.ok (.list [.value (.string "Rex"), .value .null])), world) }
    registry :=
      { schema := ⟨[⟨"String", .scalar⟩, ⟨"Query", .object [] [names]⟩], "Query", none, none⟩ } }

/-- The document that selects the field. -/
def gapDocument : Document where
  operations := [⟨.query, none, [.field ⟨2, none, "names", [], [], "Query", fullList⟩ []]⟩]
  fragments := []

end Execution

end QueryEngine
