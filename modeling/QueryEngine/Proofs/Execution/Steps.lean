import QueryEngine.Execution.Run
import QueryEngine.Proofs.Polling

/-!
# Drain steps

`AfterSteps` are the states between drain steps: the outcomes of a whole batch are in their slots
and everything that can be resolved at once is resolved. Which states these are depends neither on
the fuel nor on a limit (`AfterSteps.unique`, `resolveQueued_draining`); a limit only says at which
of them a run ends (`Halts`, `run_halts`). A run never ends before a state that it may still reach
(`Halts.last`).
-/

namespace QueryEngine.Execution

variable {W O C T : Type}

/-- The setting with another way to drain: the mode, and the greatest number of drain steps. -/
def Setting.draining (setting : Setting W O C T) (mode : DrainMode) (limit : Option Nat) :
    Setting W O C T :=
  { setting with
    registry :=
      { setting.registry with
        configuration :=
          { setting.registry.configuration with drainMode := mode, maxDrainSteps := limit } } }

/-- The setting with another limit of drain steps, or without one. -/
def Setting.limited (setting : Setting W O C T) (limit : Option Nat) : Setting W O C T :=
  setting.draining setting.registry.configuration.drainMode limit

/-! ## Resolving does not depend on the way to drain -/

section
variable (setting : Setting W O C T) (mode : DrainMode) (limit : Option Nat)

@[simp] theorem Setting.draining_host : (setting.draining mode limit).host = setting.host := rfl

@[simp] theorem Setting.draining_vars : (setting.draining mode limit).vars = setting.vars := rfl

@[simp] theorem Setting.limited_host : (setting.limited limit).host = setting.host := rfl

@[simp] theorem Setting.limited_maxDrainSteps :
    (setting.limited limit).registry.configuration.maxDrainSteps = limit := rfl

/-- Completing a value does not look at the way to drain. -/
theorem complete_draining (invocation : Invocation W O C T) (type : TypeRef) (path : Path)
    (value : FieldValue O C T) (state : State W O C T) :
    complete (setting.draining mode limit) invocation type path value state
      = complete setting invocation type path value state := by
  induction type generalizing path value state with
  | named name | nonNullNamed name => rfl
  | list item ih | nonNullList item ih =>
    simp only [complete, Setting.draining_host, ih]
    rfl

/-- Resolving fields does not look at the way to drain. -/
theorem resolveFields_draining (frame : Frame W O C T) (children : List (Node (Definition W O C T)))
    (known : Option (Page O)) (state : State W O C T) :
    resolveFields (setting.draining mode limit) frame children known state
      = resolveFields setting frame children known state := by
  induction children generalizing known state with
  | nil => rfl
  | cons child rest ih =>
    simp only [resolveFields, ih, complete_draining, Setting.draining_vars]
    rfl

/-- Resolving an object does not look at the way to drain. -/
theorem resolveFrame_draining (frame : Frame W O C T) (state : State W O C T) :
    resolveFrame (setting.draining mode limit) frame state = resolveFrame setting frame state := by
  simp only [resolveFrame, resolveFields_draining, Setting.draining_vars]

/-- Working the queue through does not look at the way to drain. -/
theorem resolveQueued_draining (levels : Nat) (state : State W O C T) :
    resolveQueued (setting.draining mode limit) levels state
      = resolveQueued setting levels state := by
  induction levels generalizing state with
  | zero => rfl
  | succ levels ih => simp only [resolveQueued, resolveFrame_draining, ih]

/-- Putting outcomes in their slots does not look at the way to drain. -/
theorem applyAll_draining (pending : List (Pending W O C T)) (outcomes : List (Outcome O C T))
    (state : State W O C T) :
    applyAll (setting.draining mode limit) pending outcomes state
      = applyAll setting pending outcomes state := by
  induction pending generalizing outcomes state with
  | nil => rfl
  | cons first rest ih =>
    cases outcomes with
    | nil => rfl
    | cons outcome outcomes => simp only [applyAll, ih, apply, complete_draining]

end

/-! ## States between drain steps -/

/-- The states between drain steps, from a state where nothing is resolved yet. -/
inductive AfterSteps (setting : Setting W O C T) (levels : Nat) (start : State W O C T) :
    Nat → State W O C T → Prop
  | start : AfterSteps setting levels start 0 (resolveQueued setting levels start)
  | step {steps fuel : Nat} {state : State W O C T} {outcomes : List (Outcome O C T)} {world : W}
    (h : AfterSteps setting levels start steps state) (hp : state.pending ≠ [])
    (hc : setting.host.cancelled state.world = false)
    (hd : drain setting fuel state = some (.completed outcomes, world)) :
    AfterSteps setting levels start (steps + 1)
      (resolveQueued setting levels
        (applyAll setting state.pending outcomes { state with world, pending := [] }))

/-- After so many drain steps tasks still wait, and nothing is cancelled. -/
def NeedsMore (setting : Setting W O C T) (levels : Nat) (start : State W O C T) (steps : Nat) :
    Prop :=
  ∃ state, AfterSteps setting levels start steps state ∧ state.pending ≠ []
    ∧ setting.host.cancelled state.world = false

/-- Where a run ends after some drain steps, with the error it ends with: no task waits, something
stops it, or the next batch is cancelled, of which no result is used. -/
inductive Halts (setting : Setting W O C T) (steps : Nat) (state : State W O C T) :
    Option ExecutionError → State W O C T → Prop
  | finished (h : state.pending = []) : Halts setting steps state none state
  | stopped {error : ExecutionError} (hp : state.pending ≠ [])
    (h : stop? setting steps state.world = some error) :
    Halts setting steps state (some error) state
  | cancelled {fuel : Nat} {world : W} (hp : state.pending ≠ [])
    (hs : stop? setting steps state.world = none)
    (h : drain setting fuel state = some (.cancelled, world)) :
    Halts setting steps state (some .cancelled) { state with world, pending := [] }

section
variable {setting : Setting W O C T} {levels : Nat} {start : State W O C T}

/-- A batch comes to one end, whatever the fuel. -/
theorem drain_unique {fuel other : Nat} {state : State W O C T}
    {a b : Batch (Outcome O C T) × W} (ha : drain setting fuel state = some a)
    (hb : drain setting other state = some b) : a = b :=
  Polling.drain_unique ha hb

/-- A batch that is drained with some fuel is drained alike with more. -/
theorem drain_mono {fuel more : Nat} {state : State W O C T} {result : Batch (Outcome O C T) × W}
    (h : drain setting fuel state = some result) (hle : fuel ≤ more) :
    drain setting more state = some result :=
  Polling.drain_mono h hle

/-- A run that comes to an end does so in the same way with more fuel. -/
theorem run_mono {fuel more steps : Nat} {state : State W O C T}
    {result : Option ExecutionError × State W O C T}
    (h : run setting levels fuel steps state = some result) (hle : fuel ≤ more) :
    run setting levels more steps state = some result := by
  induction fuel generalizing more steps state with
  | zero => cases h
  | succ fuel ih =>
    obtain ⟨more, rfl⟩ : ∃ n, more = n + 1 := ⟨more - 1, by omega⟩
    simp only [run] at h ⊢
    split
    · rename_i hp
      simpa only [hp, if_true] using h
    · rename_i hp
      simp only [hp, Bool.false_eq_true, if_false] at h
      split
      · rename_i hs
        simpa only [hs] using h
      · rename_i hs
        simp only [hs] at h
        split at h
        · cases h
        · rename_i hd
          rw [drain_mono hd (by omega)]
          exact h
        · rename_i hd
          rw [drain_mono hd (by omega)]
          exact ih h (by omega)

/-- After a number of drain steps there is one state at most. -/
theorem AfterSteps.unique {steps : Nat} {a b : State W O C T}
    (ha : AfterSteps setting levels start steps a) (hb : AfterSteps setting levels start steps b) :
    a = b := by
  induction ha generalizing b with
  | start => cases hb; rfl
  | step h hp hc hd ih =>
    cases hb with
    | step h' hp' hc' hd' =>
      obtain rfl := ih h'
      cases drain_unique hd hd'
      rfl

/-- Before later drain steps tasks wait, nothing is cancelled and the batch completes. -/
theorem AfterSteps.drains {steps earlier : Nat} {state : State W O C T}
    (h : AfterSteps setting levels start steps state) (hlt : earlier < steps) :
    ∃ before, AfterSteps setting levels start earlier before ∧ before.pending ≠ []
      ∧ setting.host.cancelled before.world = false
      ∧ ∃ fuel outcomes world, drain setting fuel before = some (.completed outcomes, world) := by
  induction h with
  | start => omega
  | step h hp hc hd ih =>
    rename_i steps fuel state outcomes world
    rcases Nat.lt_succ_iff_lt_or_eq.1 hlt with hlt | rfl
    · exact ih hlt
    · exact ⟨state, h, hp, hc, fuel, outcomes, world, hd⟩

/-- A run that goes on to later drain steps needs more than the earlier ones. -/
theorem AfterSteps.needsMore {steps earlier : Nat} {state : State W O C T}
    (h : AfterSteps setting levels start steps state) (hlt : earlier < steps) :
    NeedsMore setting levels start earlier := by
  obtain ⟨before, hb, hp, hc, -⟩ := h.drains hlt
  exact ⟨before, hb, hp, hc⟩

/-- Nothing stops a run that is neither cancelled nor at its limit. -/
theorem stop?_eq_none_iff {limit : Option Nat} {steps : Nat} {world : W} :
    stop? (setting.limited limit) steps world = none
      ↔ setting.host.cancelled world = false ∧ ∀ l ∈ limit, steps < l := by
  by_cases hc : setting.host.cancelled world = true
  · simp [stop?, hc]
  · cases limit with
    | none => simp [stop?, hc]
    | some l => simp [stop?, hc]

/-- A cancelled execution stops before the next drain step, whatever the limit. -/
theorem stop?_of_cancelled {limit : Option Nat} {steps : Nat} {world : W}
    (h : setting.host.cancelled world = true) :
    stop? (setting.limited limit) steps world = some .cancelled := by
  simp [stop?, h]

/-- At its limit a run stops, unless it is cancelled. -/
theorem stop?_at_limit {limit steps : Nat} {world : W} (h : setting.host.cancelled world = false)
    (hle : limit ≤ steps) :
    stop? (setting.limited (some limit)) steps world = some (.drainLimitExceeded limit) := by
  simp [stop?, h, hle]

/-- A run ends after some drain steps, not more than its limit allows. -/
theorem run_halts {limit : Option Nat} {fuel steps : Nat} {state final : State W O C T}
    {error : Option ExecutionError}
    (hr : run (setting.limited limit) levels fuel steps state = some (error, final))
    (h : AfterSteps setting levels start steps (resolveQueued setting levels state))
    (hl : ∀ l ∈ limit, steps ≤ l) :
    ∃ steps' last, AfterSteps setting levels start steps' last ∧ (∀ l ∈ limit, steps' ≤ l)
      ∧ Halts (setting.limited limit) steps' last error final := by
  induction fuel generalizing steps state with
  | zero => cases hr
  | succ fuel ih =>
    simp only [run, Setting.limited, resolveQueued_draining] at hr
    split at hr
    · rename_i hp
      cases hr
      exact ⟨steps, _, h, hl, .finished (by simpa using hp)⟩
    · rename_i hp
      have hp : (resolveQueued setting levels state).pending ≠ [] := by simpa using hp
      split at hr
      · rename_i hstop
        cases hr
        exact ⟨steps, _, h, hl, .stopped hp hstop⟩
      · rename_i hstop
        obtain ⟨hc, hlt⟩ := stop?_eq_none_iff.1 hstop
        split at hr
        · cases hr
        · rename_i hd
          cases hr
          exact ⟨steps, _, h, hl, .cancelled hp hstop hd⟩
        · rename_i outcomes world hd
          rw [applyAll_draining] at hr
          exact ih hr (.step h hp hc hd) fun l hm => hlt l hm

/-- A state that a run may still reach comes no later than the one where it ends. -/
theorem Halts.last {limit : Option Nat} {steps other : Nat} {state reached final : State W O C T}
    {error : Option ExecutionError} (h : Halts (setting.limited limit) steps state error final)
    (hs : AfterSteps setting levels start steps state)
    (ho : AfterSteps setting levels start other reached) (hl : ∀ l ∈ limit, other ≤ l) :
    other ≤ steps := by
  by_contra hlt
  obtain ⟨before, hb, hp, hc, fuel, outcomes, world, hd⟩ := ho.drains (Nat.lt_of_not_le hlt)
  obtain rfl := hs.unique hb
  have hstop : stop? (setting.limited limit) steps state.world = none := by
    refine stop?_eq_none_iff.2 ⟨hc, ?_⟩
    intro l hm
    have := hl l hm
    omega
  cases h with
  | finished h => exact hp h
  | stopped hp h => simp [hstop] at h
  | cancelled hp hs h => cases drain_unique hd h

/-- Where a run ends, it ends in one way. -/
theorem Halts.unique {steps : Nat} {state a b : State W O C T} {e f : Option ExecutionError}
    (ha : Halts setting steps state e a) (hb : Halts setting steps state f b) : e = f ∧ a = b := by
  cases ha with
  | finished h =>
    cases hb with
    | finished => exact ⟨rfl, rfl⟩
    | stopped hp | cancelled hp => exact absurd h hp
  | stopped hp h =>
    cases hb with
    | finished hn => exact absurd hn hp
    | stopped hp' h' =>
      cases h.symm.trans h'
      exact ⟨rfl, rfl⟩
    | cancelled hp' hs' h' => cases h.symm.trans hs'
  | cancelled hp hs h =>
    cases hb with
    | finished hn => exact absurd hn hp
    | stopped hp' h' => cases hs.symm.trans h'
    | cancelled hp' hs' h' =>
      cases drain_unique h h'
      exact ⟨rfl, rfl⟩

/-- Limits that stop a state in the same way end a run there in the same way. -/
theorem Halts.limited {limit other : Option Nat} {steps : Nat} {state final : State W O C T}
    {error : Option ExecutionError} (h : Halts (setting.limited limit) steps state error final)
    (hs : state.pending ≠ [] → stop? (setting.limited limit) steps state.world
      = stop? (setting.limited other) steps state.world) :
    Halts (setting.limited other) steps state error final := by
  cases h with
  | finished h => exact .finished h
  | stopped hp h => exact .stopped hp (hs hp ▸ h)
  | cancelled hp hn h => exact .cancelled hp (hs hp ▸ hn) h

/-- A lower limit ends a run no later than a higher one. -/
theorem isSome_run_limited {limit : Nat} {other : Option Nat} (hle : ∀ l ∈ other, limit ≤ l)
    {fuel steps : Nat} {state : State W O C T}
    (h : (run (setting.limited other) levels fuel steps state).isSome) :
    (run (setting.limited (some limit)) levels fuel steps state).isSome := by
  induction fuel generalizing steps state with
  | zero => cases h
  | succ fuel ih =>
    simp only [run, Setting.limited, resolveQueued_draining] at h ⊢
    split
    · rfl
    · rename_i hp
      simp only [hp, Bool.false_eq_true, if_false] at h
      split
      · rfl
      · rename_i hstop
        obtain ⟨hc, hlt⟩ := stop?_eq_none_iff.1 hstop
        have hstop' : stop? (setting.draining setting.registry.configuration.drainMode other) steps
            (resolveQueued setting levels state).world = none := by
          refine stop?_eq_none_iff.2 ⟨hc, ?_⟩
          intro l hm
          have := hlt limit rfl
          have := hle l hm
          omega
        simp only [hstop'] at h
        have hd : drain (setting.draining setting.registry.configuration.drainMode (some limit))
              (fuel + 1) (resolveQueued setting levels state)
            = drain (setting.draining setting.registry.configuration.drainMode other)
              (fuel + 1) (resolveQueued setting levels state) := rfl
        rw [hd]
        split
        · rename_i hn
          simp [hn] at h
        · rfl
        · rename_i hn
          simp only [hn, applyAll_draining] at h ⊢
          exact ih h

end

end QueryEngine.Execution
