import QueryEngine.Proofs.Execution.Phases
import QueryEngine.Proofs.Execution.Refinement
import QueryEngine.Proofs.Execution.Steps
import QueryEngine.Proofs.Polling.Ready

/-!
# Executions with a limit end

A forced task can be answered with another task for ever, so an execution without a limit need not
end. With a limit of drain steps it does, if only the tasks of each batch become ready
(`execute_ends`): every phase comes to its end, since the nodes whose objects and tasks are queued
are never higher than the tree (`Low`), and the drain steps that are left become fewer.
-/

namespace QueryEngine.Execution

variable {W O C T : Type}

/-- What is queued belongs to nodes that are not higher than `levels`. -/
structure Low (levels : Nat) (state : State W O C T) : Prop where
  frames : Reach levels state.frontier
  tasks : ∀ pending ∈ state.pending, pending.invocation.node.height ≤ levels

/-- The states in which phases begin: the first one, and those after the outcomes of a batch were
put in their slots. -/
inductive Begins (setting : Setting W O C T) (levels : Nat) (start : State W O C T) :
    Nat → State W O C T → Prop
  | start : Begins setting levels start 0 start
  | step {steps fuel : Nat} {state : State W O C T} {outcomes : List (Outcome O C T)} {world : W}
    (h : AfterSteps setting levels start steps state) (hp : state.pending ≠ [])
    (hc : setting.host.cancelled state.world = false)
    (hd : drain setting fuel state = some (.completed outcomes, world)) :
    Begins setting levels start (steps + 1)
      (applyAll setting state.pending outcomes { state with world, pending := [] })

section
variable {setting : Setting W O C T} {levels : Nat} {start state begun : State W O C T}
  {steps : Nat}

/-- What is queued for nodes that are low enough keeps a state low. -/
theorem Low.queues {kind : Node (Definition W O C T) → Prop} {before after : State W O C T}
    (h : Low levels before) (hq : Queues kind before after)
    (hk : ∀ node, kind node → node.height ≤ levels) : Low levels after := by
  obtain ⟨⟨frames, hframes, hkf⟩, tasks, htasks, hkt⟩ := hq
  constructor
  · intro frame hf
    exact (List.mem_append.1 (hframes ▸ hf)).elim (h.frames frame) fun hf => hk _ (hkf frame hf)
  · intro pending hp
    exact (List.mem_append.1 (htasks ▸ hp)).elim (h.tasks pending) fun hp => hk _ (hkt pending hp)

/-- Resolving objects that are low enough keeps a state low. -/
theorem Low.foldl {frames : List (Frame W O C T)} (h : Low levels state)
    (hf : Reach levels frames) :
    Low levels (frames.foldl (fun state frame => resolveFrame setting frame state) state) := by
  induction frames generalizing state with
  | nil => exact h
  | cons frame rest ih =>
    refine ih (h.queues (queues_resolveFrame setting frame state) fun node hc => ?_)
      fun other ho => hf other (List.mem_cons_of_mem _ ho)
    have hlt := Node.height_lt_of_isChild hc
    have hle := hf frame (List.mem_cons_self ..)
    omega

/-- Working the queue through keeps a state low. -/
theorem Low.resolveQueued (h : Low levels state) (more : Nat) :
    Low levels (resolveQueued setting more state) := by
  induction more generalizing state with
  | zero => exact h
  | succ more ih =>
    rw [Execution.resolveQueued]
    split
    · exact h
    · exact ih (.foldl ⟨fun frame hf => absurd hf List.not_mem_nil, h.tasks⟩ h.frames)

/-- Putting outcomes in the slots of nodes that are low enough keeps a state low. -/
theorem Low.applyAll {pending : List (Pending W O C T)} {outcomes : List (Outcome O C T)}
    (h : Low levels state) (hp : ∀ p ∈ pending, p.invocation.node.height ≤ levels) :
    Low levels (applyAll setting pending outcomes state) := by
  induction pending generalizing outcomes state with
  | nil => exact h
  | cons first rest ih =>
    cases outcomes with
    | nil => exact h
    | cons outcome outcomes =>
      refine ih ?_ fun p hm => hp p (List.mem_cons_of_mem _ hm)
      have hfirst := hp first (List.mem_cons_self ..)
      simp only [apply]
      split
      · exact h
      · cases outcome with
        | ok value => exact h.queues (queues_complete ..) fun node hn => hn ▸ hfirst
        | error error => exact ⟨h.frames, h.tasks⟩

/-- The tasks that are forced are not queued any longer. -/
theorem Low.taken (h : Low levels state) (world : W) :
    Low levels { state with world, pending := [] } :=
  ⟨h.frames, fun _ hp => by cases hp⟩

/-- Every state between drain steps is as low as the first one. -/
theorem AfterSteps.low (hs : Low levels start) (h : AfterSteps setting levels start steps state) :
    Low levels state := by
  induction h with
  | start => exact hs.resolveQueued levels
  | step _ _ _ _ ih => exact ((ih.taken _).applyAll ih.tasks).resolveQueued levels

/-- Every state in which a phase begins is as low as the first one. -/
theorem Begins.low (hs : Low levels start) (h : Begins setting levels start steps state) :
    Low levels state := by
  cases h with
  | start => exact hs
  | step h hp hc hd => exact ((h.low hs).taken _).applyAll (h.low hs).tasks

/-- Between drain steps no object is queued. -/
theorem AfterSteps.frontier_eq_nil (hs : Low levels start)
    (h : AfterSteps setting levels start steps state) : state.frontier = [] := by
  cases h with
  | start =>
    obtain ⟨count, hphase⟩ := phase_resolveQueued setting hs.frames
    exact hphase.frontier_eq_nil
  | step h hp hc hd =>
    obtain ⟨count, hphase⟩ :=
      phase_resolveQueued setting (Begins.low hs (.step h hp hc hd)).frames
    exact hphase.frontier_eq_nil

/-- What is queued at first is the root, which is as high as the tree. -/
theorem low_initial (tree : SelectionTree (Definition W O C T)) (root : O) (world : W) :
    Low tree.root.height (State.initial root tree world) :=
  ⟨fun frame hf => by rw [List.mem_singleton.1 hf], nofun⟩

/-- The tasks of every batch that is forced become ready. -/
def BecomeReady (setting : Setting W O C T) (levels : Nat) (start : State W O C T) : Prop :=
  ∀ steps state, AfterSteps setting levels start steps state → state.pending ≠ [] →
    stop? setting steps state.world = none →
      Polling.Ready setting.host.poll setting.registry.configuration.drainMode
        (state.pending.map Pending.task) state.world

/-- A run that is not stopped is neither cancelled nor at its limit. -/
theorem lt_of_stop?_eq_none {limit : Nat} {world : W}
    (hlimit : setting.registry.configuration.maxDrainSteps = some limit)
    (h : stop? setting steps world = none) :
    setting.host.cancelled world = false ∧ steps < limit := by
  have hstop : stop? (setting.limited setting.registry.configuration.maxDrainSteps) steps world
      = none := h
  obtain ⟨hc, hlt⟩ := stop?_eq_none_iff.1 hstop
  exact ⟨hc, hlt limit hlimit⟩

/-- A run whose tasks become ready ends within its limit. -/
theorem exists_run {limit : Nat}
    (hlimit : setting.registry.configuration.maxDrainSteps = some limit)
    (hready : BecomeReady setting levels start) (hle : steps ≤ limit)
    (h : AfterSteps setting levels start steps (resolveQueued setting levels begun)) :
    ∃ fuel error final, run setting levels fuel steps begun = some (error, final)
      ∧ ∃ taken last, taken ≤ limit ∧ AfterSteps setting levels start taken last
        ∧ Halts setting taken last error final := by
  -- What decreases is the number of drain steps that are left.
  induction hleft : limit - steps using Nat.strong_induction_on generalizing steps begun with
  | _ left ih =>
  by_cases hp : (resolveQueued setting levels begun).pending = []
  · exact ⟨1, _, _, by simp [run, hp], steps, _, hle, h, .finished hp⟩
  cases hstop : stop? setting steps (resolveQueued setting levels begun).world with
  | some error =>
    exact ⟨1, _, _, by simp [run, hp, hstop], steps, _, hle, h, .stopped hp hstop⟩
  | none =>
    obtain ⟨hc, hlt⟩ := lt_of_stop?_eq_none hlimit hstop
    obtain ⟨fuel, hfuel⟩ := Polling.isSome_drain setting.host.cancelled (hready _ _ h hp hstop)
    obtain ⟨⟨batch, world⟩, hdrain⟩ := Option.isSome_iff_exists.1 hfuel
    have hd : drain setting fuel (resolveQueued setting levels begun) = some (batch, world) :=
      hdrain
    cases batch with
    | cancelled =>
      have hrun := drain_mono hd (Nat.le_succ fuel)
      exact ⟨fuel + 1, _, _, by simp [run, hp, hstop, hrun], steps, _, hle, h,
        .cancelled hp hstop hd⟩
    | completed outcomes =>
      obtain ⟨more, error, final, hmore, hends⟩ :=
        ih (limit - (steps + 1)) (by omega) hlt (.step h hp hc hd) rfl
      have hrun := drain_mono hd (Nat.le_succ_of_le (Nat.le_max_left fuel more))
      have hrest := run_mono hmore (Nat.le_max_right fuel more)
      exact ⟨max fuel more + 1, error, final, by simp [run, hp, hstop, hrun, hrest], hends⟩

end

/-- Whatever the resolvers answer, resolving an object queues only objects of nodes right below its
own, so no phase of an execution goes on for ever, and what an execution does in a phase is to take
a finite number of objects from its queue until none is left. With a limit of drain steps, and
tasks that become ready, an execution ends after no more steps than the limit. -/
theorem execute_ends (setting : Setting W O C T) (tree : SelectionTree (Definition W O C T))
    (root : O) (world : W) :
    (∀ frame state, Queues (Node.IsChild frame.node) state (resolveFrame setting frame state))
    ∧ (∀ parent child : Node (Definition W O C T), Node.IsChild parent child →
      child.height < parent.height)
    ∧ WellFounded (fun next state => pop? setting state = some next)
    ∧ (∀ steps state, Begins setting tree.root.height (.initial root tree world) steps state →
      ∃ count, Phase setting count state (resolveQueued setting tree.root.height state))
    ∧ ∀ limit, setting.registry.configuration.maxDrainSteps = some limit →
      BecomeReady setting tree.root.height (.initial root tree world) →
        ∃ fuel error final, execute setting tree root fuel world
            = some (response error final, final.world)
          ∧ ∃ steps last, steps ≤ limit
            ∧ AfterSteps setting tree.root.height (.initial root tree world) steps last
            ∧ Halts setting steps last error final := by
  refine ⟨queues_resolveFrame setting, fun parent child => Node.height_lt_of_isChild,
    wellFounded_pops setting,
    fun steps state hb =>
      phase_resolveQueued setting (hb.low (low_initial tree root world)).frames, ?_⟩
  intro limit hlimit hready
  obtain ⟨fuel, error, final, hrun, hends⟩ := exists_run hlimit hready (Nat.zero_le limit) .start
  exact ⟨fuel, error, final, by simp [execute, hrun], hends⟩

/-- A host of tasks that are ready at the second poll, each with another task for its outcome. -/
def endlessSetting : Setting Unit Unit Unit Bool :=
  bareSetting fun task => if task then .waiting false else .ready (.ok (.lazy true))

/-- Every task is ready after two polls at the latest, though the outcomes never end. -/
theorem endlessSetting_acc (task : Bool) :
    Acc (fun next task => ∃ world, (endlessSetting.host.poll task world).1 = .waiting next)
      task := by
  have hready : Acc (fun next task => ∃ world,
      (endlessSetting.host.poll task world).1 = .waiting next) false :=
    ⟨_, fun next ⟨_, h⟩ => by cases h⟩
  cases task with
  | false => exact hready
  | true => exact ⟨_, fun next ⟨_, h⟩ => by cases h; exact hready⟩

/-- An execution whose tasks are answered with tasks for ever ends at its limit. -/
theorem execute_ends_slowTree :
    (endlessSetting.limited (some 3)).registry.configuration.maxDrainSteps = some 3
      ∧ BecomeReady (endlessSetting.limited (some 3)) slowTree.root.height
        (.initial () slowTree ())
      ∧ ∃ fuel error final, execute (endlessSetting.limited (some 3)) slowTree () fuel ()
          = some (response error final, ())
        ∧ ∃ steps last, steps ≤ 3
          ∧ AfterSteps (endlessSetting.limited (some 3)) slowTree.root.height
            (.initial () slowTree ()) steps last
          ∧ Halts (endlessSetting.limited (some 3)) steps last error final := by
  have hready : BecomeReady (endlessSetting.limited (some 3)) slowTree.root.height
      (.initial () slowTree ()) :=
    fun _ _ _ _ _ => Polling.ready_of_acc endlessSetting_acc _ _ _
  obtain ⟨-, -, -, -, hends⟩ := execute_ends (endlessSetting.limited (some 3)) slowTree () ()
  exact ⟨rfl, hready, hends 3 rfl hready⟩

end QueryEngine.Execution
