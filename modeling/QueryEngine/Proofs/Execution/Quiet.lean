import QueryEngine.Proofs.Execution.Course
import QueryEngine.Proofs.Execution.Effect

/-!
# Quiet moments

In an execution without side effects every moment has the world of the start and open work that
changes nothing (`Quiet`). A drain step then has the outcomes of its tasks, each awaited on its own
(`drain_eq_some`), and nothing but the end of all work ends the execution (`Ends.works_eq_nil`).
-/

namespace QueryEngine.Execution

open Moment

variable {W O C T : Type} {setting : Setting W O C T} {root : Node (Definition W O C T)}
  {world : W}

/-- A field of an object is a node of the tree that the object's own node belongs to. -/
theorem within_of_mem_included {frame : Frame W O C T} (hw : Node.Within root frame.node)
    {child : Node (Definition W O C T)} (hc : child ∈ Piece.included setting frame) :
    Node.Within root child := by
  obtain ⟨hm, -⟩ := List.mem_filter.1 hc
  cases hs : frame.node.children? frame.concrete with
  | none => simp [hs] at hm
  | some children => exact hw.child (Node.isChild_of_mem hs (by simpa [hs] using hm))

section
variable (h : SideEffectFree setting root world)
include h

/-- Resolving an object changes nothing, and leaves work that changes nothing. -/
theorem keeps_ofFrame {frame : Frame W O C T} (hw : Node.Within root frame.node)
    (hs : frame.source.Keeps world) :
    (Piece.ofFrame setting frame world).2 = world
      ∧ ∀ work ∈ (Piece.ofFrame setting frame world).1.works, work.Keeps world := by
  have hin : ∀ child ∈ Piece.included setting frame, Node.Within root child :=
    fun _ hc => within_of_mem_included hw hc
  obtain ⟨parts, he, hparts, -⟩ := fieldParts_eq h hs hin (.inl rfl)
  refine ⟨by simp [Piece.ofFrame, he], ?_⟩
  intro work hm
  simp only [Piece.ofFrame, he, Piece.works_close] at hm
  obtain ⟨part, hp, hm⟩ := Piece.mem_works_gather.1 hm
  obtain ⟨child, hc, hok⟩ := hparts part hp
  exact keeps_ofField h (hin child hc) hok hm

/-- Doing work changes nothing, and leaves work that changes nothing. -/
theorem keeps_piece {work : Work W O C T} (hw : Node.Within root work.node)
    (hk : work.Keeps world) :
    (work.piece setting world).2 = world
      ∧ ∀ left ∈ (work.piece setting world).1.works, left.Keeps world := by
  cases work with
  | object frame => exact keeps_ofFrame h hw hk
  | task pending =>
    refine ⟨rfl, ?_⟩
    intro left hl
    have hl : left ∈ [Work.task pending] := hl
    exact List.mem_singleton.1 hl ▸ hk
  | outcome pending result =>
    cases result with
    | ok value => exact Piece.keeps_ofValue h hk _ _ _
    | error error => exact ⟨rfl, fun left hl => by cases hl⟩

/-- A drain step of tasks that change nothing has the outcome of each task. -/
theorem drain_eq (hc : setting.host.cancelled world = false) (fuel : Nat)
    {state : State W O C T} (hw : state.world = world) :
    drain setting (fuel + 1) state
      = ((state.pending.map Pending.task).mapM
          (Polling.await setting.host.poll world (fuel + 1))).map fun outcomes =>
        (.completed outcomes, world) := by
  subst hw
  exact Polling.drain_eq h.host.poll hc ..

/-- The outcomes of a drain step that completes. -/
theorem drain_eq_some (hc : setting.host.cancelled world = false) {fuel : Nat}
    {state : State W O C T} (hw : state.world = world) (hp : state.pending ≠ [])
    {outcomes : List (Outcome O C T)} {after : W}
    (hd : drain setting fuel state = some (.completed outcomes, after)) :
    after = world ∧ List.Forall₂ (fun pending outcome =>
      Polling.await setting.host.poll world fuel pending.task = some outcome)
        state.pending outcomes := by
  cases fuel with
  | zero =>
    simp only [drain, Polling.drain] at hd
    cases hm : setting.registry.configuration.drainMode with
    | concurrent => simp [hm, Polling.concurrently] at hd
    | sequential =>
      obtain ⟨first, rest, hcons⟩ := List.exists_cons_of_ne_nil hp
      simp [hm, hcons, Polling.sequentially, Polling.force] at hd
  | succ fuel =>
    rw [drain_eq h hc fuel hw] at hd
    obtain ⟨results, hm, he⟩ := Option.map_eq_some_iff.1 hd
    cases he
    exact ⟨rfl, List.forall₂_map_left_iff.1 (mapM_eq_some_iff.1 hm)⟩

end

/-- The world is that of the start, and the open work changes nothing. -/
structure Quiet (world : W) (m : Moment W O C T) : Prop where
  world_eq : m.state.world = world
  keeps : ∀ work ∈ m.works, work.Keeps world

/-- Every move keeps it. -/
theorem Quiet.move {past : List (Moment W O C T)} {m m' : Moment W O C T} (hq : Quiet world m)
    (h : SideEffectFree setting root world) (hc : setting.host.cancelled world = false)
    (hs : Sound setting root past m) (hk : root.KeysDistinct) (hm : Move setting m m') :
    Quiet world m' := by
  cases hs.effect hk hm with
  | skip hn hd =>
    exact ⟨(world_next hn).trans hq.world_eq, fun other ho =>
      hq.keeps other (mem_works_of_next hn ho)⟩
  | @graft work rest hn hd =>
    rw [hq.world_eq]
    have hpiece := keeps_piece h (hs.within work (mem_works_next hn))
      (hq.keeps work (mem_works_next hn))
    refine ⟨hpiece.1, ?_⟩
    intro other ho
    rcases List.mem_append.1 ((works_graft rest work.path (work.piece setting world)).mem_iff.1 ho)
      with ho | ho
    · exact hq.keeps other (mem_works_of_next hn ho)
    · exact hpiece.2 other ho
  | drain hn hp hstop hd =>
    have hl := length_outcomes hd
    refine ⟨(drain_eq_some h hc hq.world_eq hp hd).1, ?_⟩
    intro other ho
    have hmap := map_works_drained (f := fun work : Work W O C T => work.Keeps world)
      (fun _ _ => rfl) hn hl world
    obtain ⟨earlier, he, hkeeps⟩ := List.mem_map.1 (hmap ▸ List.mem_map_of_mem ho)
    exact hkeeps ▸ hq.keeps earlier he

/-- An execution without side effects has quiet moments only. -/
theorem Reaches.quiet {root : O} {tree : SelectionTree (Definition W O C T)}
    (hk : tree.root.KeysDistinct) (h : SideEffectFree setting tree.root world)
    (hc : setting.host.cancelled world = false) {past : List (Moment W O C T)}
    {m : Moment W O C T} (hr : Reaches setting (.start root tree world) past m) :
    Quiet world m := by
  induction hr with
  | start =>
    refine ⟨rfl, ?_⟩
    intro work hw
    have hw : work ∈ [Work.object ⟨[], .object (.host root), tree.root.owner, tree.root⟩] := hw
    rw [List.mem_singleton.1 hw]
    exact Source.keeps_object (C := C) world (.host root)
  | move hr hm ih => exact ih.move h hc (hr.sound hk) hk hm

/-- Without cancellation and without a limit nothing stops an execution. -/
theorem stop?_eq_none (hc : setting.host.cancelled world = false)
    (hlimit : setting.registry.configuration.maxDrainSteps = none) (steps : Nat) :
    stop? setting steps world = none := by
  simp [stop?, hc, hlimit]

/-- An execution that nothing disturbs is not stopped. -/
theorem Ends.works_eq_nil {m : Moment W O C T}
    (h : SideEffectFree setting root world) (hc : setting.host.cancelled world = false)
    (hlimit : setting.registry.configuration.maxDrainSteps = none) (hq : Quiet world m)
    {error : Option ExecutionError} (he : Ends setting m error) :
    error = none ∧ m.works = [] := by
  cases he with
  | finished hw => exact ⟨rfl, hw⟩
  | stopped hstop =>
    rw [hq.world_eq, stop?_eq_none hc hlimit] at hstop
    cases hstop
  | @cancelled fuel after hp hd =>
    cases fuel with
    | zero =>
      obtain ⟨first, rest, hcons⟩ := List.exists_cons_of_ne_nil hp
      simp only [drain, Polling.drain, hcons] at hd
      cases hm : setting.registry.configuration.drainMode <;>
        simp [hm, Polling.concurrently, Polling.sequentially, Polling.force] at hd
    | succ fuel =>
      rw [drain_eq h hc fuel hq.world_eq] at hd
      obtain ⟨_, -, he⟩ := Option.map_eq_some_iff.1 hd
      cases he

/-- A bare host changes nothing, but for its tasks. -/
theorem bareSetting_keeps {W T : Type} (poll : T → Progress T (Outcome Unit Unit T)) (world : W) :
    (bareSetting poll).host.Keeps world :=
  ⟨fun _ _ => rfl, fun _ _ _ => rfl, fun _ _ _ => rfl, fun _ => rfl⟩

end QueryEngine.Execution
