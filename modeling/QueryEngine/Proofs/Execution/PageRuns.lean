import QueryEngine.Proofs.Execution.Course
import QueryEngine.Proofs.Execution.Recorded

/-!
# Pages are made once

A recorded execution passes the moments of the execution itself, and what it notes is made up of
the pipelines of the connections whose fields were resolved: one at most for each of them
(`Reaches.recorded`).
-/

namespace QueryEngine.Execution

open Moment

variable {W O C T : Type}

/-! ## Moments -/

/-- The state in recorded worlds. -/
def State.recorded (state : State W O C T) (noted : List (Call O)) :
    State (Recorded W O) O C T where
  world := (state.world, noted)
  data := state.data
  errors := state.errors
  frontier := state.frontier.map Frame.recorded
  pending := state.pending.map Pending.recorded

/-- The moment in recorded worlds. -/
def Moment.recorded (m : Moment W O C T) (noted : List (Call O)) :
    Moment (Recorded W O) O C T where
  steps := m.steps
  state := m.state.recorded noted
  due := m.due.map fun due => (due.1.recorded, due.2)

/-- Grafting a piece in a recorded state is grafting it and noting what it noted. -/
theorem State.graft_recorded (state : State W O C T) (path : Path) (result : Piece W O C T × W)
    (noted calls : List (Call O)) :
    (state.recorded noted).graft path (result.1.recorded, result.2, calls)
      = (state.graft path result).recorded calls := by
  simp [graft, recorded, Piece.recorded]

namespace Work

/-- The work in recorded worlds. -/
def recorded : Work W O C T → Work (Recorded W O) O C T
  | object frame => .object frame.recorded
  | task pending => .task pending.recorded
  | outcome pending result => .outcome pending.recorded result

/-- Recording does not change where work belongs. -/
theorem path_recorded (work : Work W O C T) : work.recorded.path = work.path := by
  cases work <;> rfl

/-- Recording does not change what work marks. -/
theorem mark_recorded (work : Work W O C T) : work.recorded.mark = work.mark := by
  cases work <;> rfl

/-- Only objects that are connections note anything. -/
theorem piece_recorded (setting : Setting W O C T) (work : Work W O C T) (world : W)
    (noted : List (Call O)) :
    ∃ calls,
      work.recorded.piece setting.recorded (world, noted)
        = ((work.piece setting world).1.recorded, (work.piece setting world).2, noted ++ calls)
      ∧ (∀ frame, work = .object frame → frame.Ran setting calls
        (Piece.settled setting frame (Piece.included setting frame) none world))
      ∧ ((∀ frame, work ≠ .object frame) → calls = []) := by
  cases work with
  | object frame =>
    obtain ⟨calls, he, hran⟩ := Piece.ofFrame_recorded setting frame world noted
    exact ⟨calls, he, fun _ h => by cases h; exact hran, fun h => absurd rfl (h frame)⟩
  | task pending => exact ⟨[], by simp only [List.append_nil]; rfl, nofun, fun _ => rfl⟩
  | outcome pending result =>
    have he : (outcome pending result).recorded.piece setting.recorded (world, noted) = _ :=
      Piece.ofOutcome_recorded setting pending result world noted
    exact ⟨[], by rw [List.append_nil]; exact he, nofun, fun _ => rfl⟩

end Work

/-- What is next in a recorded moment is what is next in the moment. -/
theorem Moment.next?_recorded (m : Moment W O C T) (noted : List (Call O)) :
    (m.recorded noted).next?
      = m.next?.map fun (work, rest) => (work.recorded, rest.recorded noted) := by
  obtain ⟨steps, ⟨world, data, errors, frontier, pending⟩, due⟩ := m
  cases due with
  | cons first due => rfl
  | nil => cases frontier <;> rfl

/-- Nothing is noted at the start. -/
theorem Moment.start_recorded (root : O) (tree : SelectionTree (Definition W O C T)) (world : W) :
    (Moment.start root tree world).recorded []
      = Moment.start root tree.recorded (world, []) := by
  simp only [start, recorded, State.recorded, State.initial, SelectionTree.recorded,
    SelectionTree.map, Node.map_owner]
  rfl

/-- Draining in recorded worlds comes to the same, and nothing is noted. -/
theorem drain_recorded (setting : Setting W O C T) (fuel : Nat) (state : State W O C T)
    (noted : List (Call O)) :
    drain setting.recorded fuel (state.recorded noted)
      = (drain setting fuel state).map fun (answer, after) => (answer, after, noted) := by
  have htasks : (state.recorded noted).pending.map Pending.task
      = state.pending.map Pending.task := by
    simp only [State.recorded, List.map_map]
    rfl
  simp only [drain, htasks]
  exact Polling.drain_lift ..

/-! ## Moves -/

section
variable {setting : Setting W O C T} {root : Node (Definition W O C T)}
  {past : List (Moment W O C T)} {m next : Moment W O C T}

/-- What a move notes is the pipeline of the connection that is resolved, if one is. -/
theorem Sound.move_recorded (h : Sound setting root past m) (hk : root.KeysDistinct)
    (hm : Move setting m next) (noted : List (Call O)) :
    ∃ calls, Move setting.recorded (m.recorded noted) (next.recorded (noted ++ calls))
      ∧ (∀ frame, Resolves m frame → frame.Ran setting calls
        (Piece.settled setting frame (Piece.included setting frame) none m.state.world))
      ∧ ((∀ frame, ¬ Resolves m frame) → calls = []) := by
  cases h.effect hk hm with
  | @skip work _ hn hd =>
    have hn' : (m.recorded noted).next? = some (work.recorded, next.recorded noted) := by
      rw [next?_recorded, hn]
      rfl
    refine ⟨[], ?_, fun frame hr => absurd hr (not_resolves_of_none hn hd frame), fun _ => rfl⟩
    have hmove : Move setting.recorded (m.recorded noted) _ := .work hn'
    rw [run_of_none setting.recorded] at hmove
    · rwa [List.append_nil]
    · exact next_ne_task hn'
    · rw [Work.path_recorded]
      show next.state.data.at? work.path = none
      rw [data_next hn, hd]
  | @graft work rest hn hd =>
    have hn' : (m.recorded noted).next? = some (work.recorded, rest.recorded noted) := by
      rw [next?_recorded, hn]
      rfl
    obtain ⟨calls, hpiece, hran, hnone⟩ :=
      work.piece_recorded setting m.state.world noted
    have hs : (m.state.data.at? work.path).isSome := by simp [hd]
    refine ⟨calls, ?_, ?_, ?_⟩
    · have hmove : Move setting.recorded (m.recorded noted) _ := .work hn'
      have hrun : work.recorded.run setting.recorded (rest.recorded noted).state
          = (rest.state.graft work.path (work.piece setting m.state.world)).recorded
            (noted ++ calls) := by
        rw [run_eq_graft setting.recorded, Work.path_recorded]
        · show (rest.state.recorded noted).graft work.path
            (work.recorded.piece setting.recorded (rest.state.world, noted)) = _
          rw [world_next hn, hpiece]
          exact State.graft_recorded ..
        · intro frame he
          cases work with
          | object inner =>
            cases he
            have hkeys := h.keys_next hk hn inner rfl
            rw [Piece.included_recorded, List.map_map]
            simpa only [Function.comp_def, Node.map_key] using hkeys
          | task pending | outcome pending result => cases he
        · rw [Work.path_recorded, Work.mark_recorded]
          show rest.state.data.at? work.path = _
          rw [data_next hn, hd]
      rw [hrun] at hmove
      exact hmove
    · intro frame hr
      exact hran frame ((resolves_iff hn hs frame).1 hr)
    · intro hnot
      refine hnone fun frame he => hnot frame ((resolves_iff hn hs frame).2 he)
  | @drain fuel outcomes after hn hp hs hd =>
    refine ⟨[], ?_, ?_, fun _ => rfl⟩
    · have hn' : (m.recorded noted).next? = none := by
        rw [next?_recorded, hn]
        rfl
      have hd' : Execution.drain setting.recorded fuel (m.recorded noted).state
          = some (.completed outcomes, after, noted) := by
        have hlift := drain_recorded setting fuel m.state noted
        rwa [hd] at hlift
      have hmove : Move setting.recorded (m.recorded noted) _ :=
        .drain hn' (by simpa [Moment.recorded, State.recorded] using hp) hs hd'
      have hdrained : (m.recorded noted).drained outcomes (after, noted)
          = (m.drained outcomes after).recorded noted := by
        simp [drained, Moment.recorded, State.recorded, List.zip_map_left]
      rw [List.append_nil, ← hdrained]
      exact hmove
    · rintro frame ⟨⟨rest, hr⟩, -⟩
      simp [hn] at hr

end

/-! ## Executions -/

variable (W O C T) in
/-- What became of the page of a connection: the applications that made it, and the page if any
field asked for it. -/
structure PageRun where
  frame : Frame W O C T
  calls : List (Call O)
  page : Option (Page O)

/-- There is one run for each connection whose fields were resolved, with the page that was known
then. -/
structure PageRuns (setting : Setting W O C T) (past : List (Moment W O C T))
    (runs : List (PageRun W O C T)) : Prop where
  resolved : ∀ frame, (∃ run ∈ runs, run.frame = frame)
    ↔ Resolved past frame ∧ ∃ connection, frame.source = .connection connection
  nodup : (runs.map fun run => run.frame.path).Nodup
  ran : ∀ run ∈ runs, run.frame.Ran setting run.calls run.page
  settled : ∀ run ∈ runs, ∃ m ∈ past, Resolves m run.frame
    ∧ run.page = Piece.settled setting run.frame (Piece.included setting run.frame) none
      m.state.world

section
variable {setting : Setting W O C T} {root : Node (Definition W O C T)}
  {past : List (Moment W O C T)} {m : Moment W O C T} {runs : List (PageRun W O C T)}

/-- A moment when no connection is resolved adds no run. -/
theorem PageRuns.idle (h : PageRuns setting past runs)
    (hm : ∀ frame, Resolves m frame → ∀ connection, frame.source ≠ .connection connection) :
    PageRuns setting (m :: past) runs where
  resolved frame := by
    rw [h.resolved, resolved_cons]
    constructor
    · rintro ⟨hr, hc⟩
      exact ⟨.inr hr, hc⟩
    · rintro ⟨hr | hr, connection, hc⟩
      · exact absurd hc (hm frame hr connection)
      · exact ⟨hr, connection, hc⟩
  nodup := h.nodup
  ran := h.ran
  settled run hr := by
    obtain ⟨earlier, he, hs⟩ := h.settled run hr
    exact ⟨earlier, List.mem_cons_of_mem _ he, hs⟩

/-- A connection that is resolved adds its run. -/
theorem PageRuns.resolve (h : PageRuns setting past runs) (hs : Sound setting root past m)
    {frame : Frame W O C T} (hr : Resolves m frame) {connection : Connection W O C}
    (hc : frame.source = .connection connection) {calls : List (Call O)}
    (hran : frame.Ran setting calls
      (Piece.settled setting frame (Piece.included setting frame) none m.state.world)) :
    PageRuns setting (m :: past) (runs ++ [⟨frame, calls,
      Piece.settled setting frame (Piece.included setting frame) none m.state.world⟩]) where
  resolved other := by
    obtain ⟨rest, hn⟩ := hr.1
    simp only [List.mem_append, List.mem_singleton, or_and_right, exists_or, exists_eq_left,
      h.resolved, resolved_cons, resolves_iff hn hr.2, Work.object.injEq]
    constructor
    · rintro (hother | rfl)
      · exact .inr hother
      · exact .inl ⟨rfl, connection, hc⟩
    · rintro (⟨rfl, -⟩ | hother)
      · exact .inr rfl
      · exact .inl hother
  nodup := by
    obtain ⟨rest, hn⟩ := hr.1
    rw [List.map_append, List.nodup_append]
    refine ⟨h.nodup, by simp, ?_⟩
    rintro path hp other ho rfl
    obtain ⟨run, hrun, rfl⟩ := List.mem_map.1 hp
    have hresolved := ((h.resolved run.frame).1 ⟨run, hrun, rfl⟩).1
    refine hs.fresh _ (mem_works_next hn) run.frame hresolved ?_
    rw [List.mem_singleton.1 ho]
    exact List.prefix_refl _
  ran run hm := by
    rcases List.mem_append.1 hm with hm | hm
    · exact h.ran run hm
    · rw [List.mem_singleton.1 hm]
      exact hran
  settled run hm := by
    rcases List.mem_append.1 hm with hm | hm
    · obtain ⟨earlier, he, hsettled⟩ := h.settled run hm
      exact ⟨earlier, List.mem_cons_of_mem _ he, hsettled⟩
    · rw [List.mem_singleton.1 hm]
      exact ⟨m, List.mem_cons_self .., hr, rfl⟩

end

/-- A recorded execution passes the same moments, and what it notes are the runs of the connections
whose fields were resolved, one after the other. -/
theorem Reaches.recorded {setting : Setting W O C T} {root : O}
    {tree : SelectionTree (Definition W O C T)} {world : W} (hk : tree.root.KeysDistinct)
    {past : List (Moment W O C T)} {m : Moment W O C T}
    (h : Reaches setting (.start root tree world) past m) :
    ∃ runs : List (PageRun W O C T), PageRuns setting past runs
      ∧ ∃ past', Reaches setting.recorded (.start root tree.recorded (world, [])) past'
        (m.recorded (runs.flatMap PageRun.calls)) := by
  induction h with
  | start =>
    refine ⟨[], ⟨?_, .nil, nofun, nofun⟩, [], ?_⟩
    · intro frame
      simp [Resolved]
    · rw [List.flatMap_nil, Moment.start_recorded]
      exact .start
  | @move past m next hr hm ih =>
    obtain ⟨runs, hruns, past', hr'⟩ := ih
    have hs := hr.sound hk
    obtain ⟨calls, hmove, hran, hnone⟩ := hs.move_recorded hk hm (runs.flatMap PageRun.calls)
    by_cases hconnection : ∃ frame connection, Resolves m frame
        ∧ frame.source = .connection connection
    · obtain ⟨frame, connection, hres, hc⟩ := hconnection
      have hcalls := hr'.move hmove
      refine ⟨_, hruns.resolve hs hres hc (hran frame hres), ?_⟩
      rw [List.flatMap_append, List.flatMap_singleton]
      exact ⟨_, hcalls⟩
    · have hidle : ∀ frame, Resolves m frame →
          ∀ connection, frame.source ≠ .connection connection :=
        fun frame hres connection hc => hconnection ⟨frame, connection, hres, hc⟩
      have hcalls : calls = [] := by
        by_cases hres : ∃ frame, Resolves m frame
        · obtain ⟨frame, hres⟩ := hres
          have hframe := hran frame hres
          unfold Frame.Ran at hframe
          split at hframe
          · exact hframe.2
          · rename_i connection hc
            exact absurd hc (hidle frame hres connection)
        · exact hnone fun frame hf => hres ⟨frame, hf⟩
      rw [hcalls, List.append_nil] at hmove
      exact ⟨runs, hruns.idle hidle, _, hr'.move hmove⟩

/-- A recorded execution ends where the execution itself does. -/
theorem Ends.recorded {setting : Setting W O C T} {m : Moment W O C T}
    {stop : Option ExecutionError} (h : Ends setting m stop) (noted : List (Call O)) :
    Ends setting.recorded (m.recorded noted) stop := by
  cases h with
  | finished h =>
    refine .finished ?_
    simpa [works, Moment.recorded, State.recorded] using h
  | stopped h => exact .stopped h
  | @cancelled fuel world hp h =>
    have hdrain : drain setting.recorded fuel (m.recorded noted).state
        = some (.cancelled, world, noted) := by
      have hlift := drain_recorded setting fuel m.state noted
      rwa [h] at hlift
    exact .cancelled (by simpa [Moment.recorded, State.recorded] using hp) hdrain

end QueryEngine.Execution
