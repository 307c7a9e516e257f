import QueryEngine.Proofs.Execution.Outlook

/-!
# Executions that end

If nothing stops an execution without side effects and every task becomes ready, it ends as soon as
the interpreter has an answer (`run_ends`). The depth that the interpreter needs for the open work
does not grow by resolving objects, and a drain step takes one level off it (`Bounded.of_drain`);
at depth zero nothing is open that exists.
-/

namespace QueryEngine.Execution

open Moment

variable {W O C T : Type} {setting : Setting W O C T} {root : Node (Definition W O C T)}
  {world : W}

/-- The interpreter has an answer at the given depth, one more for the outcome of a task. -/
def Work.Bounded (setting : Setting W O C T) (world : W) (depth : Nat) : Work W O C T → Prop
  | .object frame => (answer setting world depth (.object frame)).isSome
  | .task pending => (answer setting world depth (.task pending)).isSome
  | .outcome pending result => (answer setting world (depth + 1) (.outcome pending result)).isSome

/-- All open work on slots that exist is bounded. -/
def Bounded (setting : Setting W O C T) (world : W) (depth : Nat) (m : Moment W O C T) : Prop :=
  ∀ work ∈ m.works, (m.state.data.at? work.path).isSome → work.Bounded setting world depth

/-- What has an answer at some depth has one at every greater depth. -/
theorem isSome_answer_mono {depth more : Nat} (hle : depth ≤ more) {work : Work W O C T}
    (h : (answer setting world depth work).isSome) : (answer setting world more work).isSome := by
  obtain ⟨a, ha⟩ := Option.isSome_iff_exists.1 h
  exact Option.isSome_iff_exists.2 ⟨a, answer_mono hle ha⟩

/-- Work that is bounded at some depth is at every greater depth. -/
theorem Work.Bounded.mono {depth more : Nat} (hle : depth ≤ more) {work : Work W O C T}
    (h : work.Bounded setting world depth) : work.Bounded setting world more := by
  cases work with
  | object | task => exact isSome_answer_mono hle h
  | outcome => exact isSome_answer_mono (Nat.add_le_add_right hle 1) h

/-- Work that is next is opened one level down. -/
theorem Work.Bounded.opened {depth : Nat} {m rest : Moment W O C T} {work : Work W O C T}
    (h : work.Bounded setting world depth) (hn : m.next? = some (work, rest)) :
    (opened setting world (answer setting world depth) work).isSome := by
  rcases next?_eq_some hn with ⟨_, _, rfl, _⟩ | ⟨frame, rfl, _⟩
  · exact h
  · have h : (answer setting world depth (.object frame)).isSome := h
    have := isSome_answer_mono (Nat.le_succ depth) h
    rwa [answer_next hn] at this

section
variable {past : List (Moment W O C T)} {m m' rest : Moment W O C T} {work : Work W O C T}
  {depth : Nat}

/-- Taking up what is next leaves the rest bounded. -/
theorem Bounded.skip (hb : Bounded setting world depth m) (hn : m.next? = some (work, rest)) :
    Bounded setting world depth rest := fun other ho hlive =>
  hb other (mem_works_of_next hn ho) (by rwa [data_next hn] at hlive)

/-- A drain step takes one level off. -/
theorem Bounded.of_drain (hb : Bounded setting world (depth + 1) m) (hn : m.next? = none)
    {fuel : Nat} {outcomes : List (Outcome O C T)}
    (ho : List.Forall₂ (fun pending outcome =>
      Polling.await setting.host.poll world fuel pending.task = some outcome)
        m.state.pending outcomes) (after : W) :
    Bounded setting world depth (m.drained outcomes after) := by
  intro work hw hlive
  rw [works_drained hn] at hw
  obtain ⟨⟨pending, outcome⟩, hzip, rfl⟩ := List.mem_map.1 hw
  have htask : (answer setting world (depth + 1) (.task pending)).isSome :=
    hb (.task pending) (by
      rw [works_of_next?_eq_none hn]
      exact List.mem_map_of_mem (List.of_mem_zip hzip).1) hlive
  obtain ⟨a, ha⟩ := Option.isSome_iff_exists.1 htask
  obtain ⟨result, hr, ha⟩ := Option.bind_eq_some_iff.1 ha
  have hawait := List.forall₂_zip ho hzip
  have hr := Polling.await_mono hr (Nat.le_max_left (depth + 1) fuel)
  have hawait := Polling.await_mono hawait (Nat.le_max_right (depth + 1) fuel)
  obtain rfl := Option.some.inj (hr.symm.trans hawait)
  exact Option.isSome_iff_exists.2 ⟨a, ha⟩

variable (h : SideEffectFree setting root world) (hk : root.KeysDistinct)
  (hs : Sound setting root past m) (hq : Quiet world m)
include h hs hq

/-- Grafting the piece of bounded work leaves everything bounded, for its parts are less deep. -/
theorem Bounded.graft (hb : Bounded setting world depth m) (hn : m.next? = some (work, rest))
    (hd : (m.state.data.at? work.path).isSome) :
    Bounded setting world depth (rest.graft work.path (work.piece setting world)) := by
  intro other ho hlive
  have hw := mem_works_next hn
  rcases List.mem_append.1 ((works_graft rest work.path (work.piece setting world)).mem_iff.1 ho)
    with ho | ho
  · rw [at?_graft_of_mem hs hn hd ho] at hlive
    exact hb other (mem_works_of_next hn ho) hlive
  · have hopened := (isSome_opened h (hs.within work hw) (hq.keeps work hw)).1
      ((hb work hw hd).opened hn)
    cases hf : work.fails setting world with
    | false =>
      have hans := hopened hf other ho
      rcases List.mem_append.1 ho with ho | ho
      · obtain ⟨frame, -, rfl⟩ := List.mem_map.1 ho
        exact hans
      · obtain ⟨pending, -, rfl⟩ := List.mem_map.1 ho
        exact hans
    | true =>
      -- What a failed object leaves open is gone.
      cases work with
      | object frame =>
        obtain ⟨tail, ht, hne⟩ := Work.path_of_mem_works ho
        obtain ⟨s, tail, rfl⟩ := List.exists_cons_of_ne_nil (hne ⟨frame, rfl⟩)
        have hv : (Work.piece setting world (.object frame)).1.value = .null :=
          Piece.value_ofFrame_eq_null_iff.2 hf
        rw [graft_state, State.graft_data, data_next hn, ht, Json.at?_fill_append hd, hv] at hlive
        simp [Json.at?_cons] at hlive
      | task pending | outcome pending outcome => cases hf

variable (hc : setting.host.cancelled world = false)
include hk hc

/-- A move does not take the interpreter deeper. -/
theorem Bounded.move (hb : Bounded setting world depth m) (hm : Move setting m m') :
    Bounded setting world depth m' := by
  cases hs.effect hk hm with
  | skip hn hd => exact hb.skip hn
  | graft hn hd =>
    rw [hq.world_eq]
    exact hb.graft h hs hq hn (by simp [hd])
  | drain hn hp hstop hd =>
    have ho := (drain_eq_some h hc hq.world_eq hp hd).2
    cases depth with
    | succ depth => exact fun work hw hlive =>
        (hb.of_drain hn ho _ work hw hlive).mono (Nat.le_succ depth)
    | zero =>
      -- No task has an answer at depth zero, so no slot is there.
      intro work hw hlive
      rw [works_drained hn] at hw
      obtain ⟨⟨pending, outcome⟩, hzip, rfl⟩ := List.mem_map.1 hw
      have htask := hb (.task pending) (by
        rw [works_of_next?_eq_none hn]
        exact List.mem_map_of_mem (List.of_mem_zip hzip).1) hlive
      cases htask

end

/-- What holds at all moments from one on, in an execution without side effects. -/
structure Steady (setting : Setting W O C T) (root : Node (Definition W O C T)) (world : W)
    (depth : Nat) (m : Moment W O C T) : Prop where
  sound : ∃ past, Sound setting root past m
  quiet : Quiet world m
  bounded : Bounded setting world depth m

section
variable {start m : Moment W O C T} {depth : Nat} (h : SideEffectFree setting root world)
  (hk : root.KeysDistinct) (hc : setting.host.cancelled world = false)
include h hk hc

/-- What is steady at one moment is at all moments that are reached from there. -/
theorem Steady.reaches (hst : Steady setting root world depth start) {past : List (Moment W O C T)}
    (hr : Reaches setting start past m) : Steady setting root world depth m := by
  induction hr with
  | start => exact hst
  | move _ hm ih =>
    obtain ⟨before, hs⟩ := ih.sound
    exact
      { sound := ⟨_, hs.move hk hm⟩
        quiet := ih.quiet.move h hc hs hk hm
        bounded := ih.bounded.move h hk hs ih.quiet hc hm }

/-- Working through the queue leaves only tasks. -/
theorem Steady.resolveQueued {steps : Nat} {state : State W O C T}
    (hst : Steady setting root world depth ⟨steps, state, []⟩) :
    Steady setting root world depth ⟨steps, resolveQueued setting root.height state, []⟩
      ∧ (Execution.resolveQueued setting root.height state).frontier = [] := by
  have hs : ∀ past m, Reaches setting ⟨steps, state, []⟩ past m →
      ∃ all, Sound setting root all m := fun _ _ hr => (hst.reaches h hk hc hr).sound
  obtain ⟨past, hr, hf⟩ := reaches_resolveQueued hk hs root.height .start (reach_height hs .start)
  exact ⟨hst.reaches h hk hc hr, hf⟩

/-- Draining and putting the outcomes in their slots takes one level off. -/
theorem Steady.applyAll {steps : Nat} {state : State W O C T} {fuel : Nat}
    (hst : Steady setting root world (depth + 1) ⟨steps, state, []⟩) (hf : state.frontier = [])
    {outcomes : List (Outcome O C T)}
    (ho : List.Forall₂ (fun pending outcome =>
      Polling.await setting.host.poll world fuel pending.task = some outcome)
        state.pending outcomes) :
    Steady setting root world depth ⟨steps + 1,
      applyAll setting state.pending outcomes { state with world, pending := [] }, []⟩ := by
  have hn : (⟨steps, state, []⟩ : Moment W O C T).next? = none := by simp [next?, hf]
  obtain ⟨past, hs⟩ := hst.sound
  have hdrained : Steady setting root world depth
      ((⟨steps, state, []⟩ : Moment W O C T).drained outcomes world) :=
    { sound := ⟨_, hs.drain hn ho.length_eq.symm world⟩
      quiet := ⟨rfl, fun work hw => by
        have hmap := map_works_drained (f := fun work : Work W O C T => work.Keeps world)
          (fun _ _ => rfl) hn ho.length_eq.symm world
        obtain ⟨earlier, he, hkeeps⟩ := List.mem_map.1 (hmap ▸ List.mem_map_of_mem hw)
        exact hkeeps ▸ hst.quiet.keeps earlier he⟩
      bounded := hst.bounded.of_drain hn ho world }
  have hstart : Reaches setting ((⟨steps, state, []⟩ : Moment W O C T).drained outcomes world) []
      ⟨steps + 1, { state with world, pending := [] }, state.pending.zip outcomes⟩ := .start
  obtain ⟨past', hr⟩ := reaches_applyAll state.pending outcomes hstart
  exact hdrained.reaches h hk hc hr

end

/-- Outcomes for slots that are gone change nothing. -/
theorem applyAll_of_none {pending : List (Pending W O C T)} {outcomes : List (Outcome O C T)}
    {state : State W O C T} (hd : ∀ p ∈ pending, state.data.at? p.path = none) :
    applyAll setting pending outcomes state = state := by
  induction pending generalizing outcomes with
  | nil => simp [applyAll]
  | cons first rest ih =>
    cases outcomes with
    | nil => simp [applyAll]
    | cons outcome outcomes =>
      have hnone := hd first (List.mem_cons_self ..)
      simp only [applyAll, apply, hnone, Option.isNone_none, if_true]
      exact ih fun p hp => hd p (List.mem_cons_of_mem _ hp)

section
variable (h : SideEffectFree setting root world) (hk : root.KeysDistinct)
  (hc : setting.host.cancelled world = false)
  (hlimit : setting.registry.configuration.maxDrainSteps = none)
  (hready : ∀ task, ∃ fuel outcome,
    Polling.await setting.host.poll world fuel task = some outcome)

include hready in
/-- With enough fuel every task of a batch has its outcome. -/
theorem exists_outcomes (pending : List (Pending W O C T)) : ∃ enough outcomes,
    ∀ fuel, enough ≤ fuel → (pending.map Pending.task).mapM
      (Polling.await setting.host.poll world fuel) = some outcomes := by
  induction pending with
  | nil => exact ⟨0, [], fun _ _ => rfl⟩
  | cons first rest ih =>
    obtain ⟨enough, outcomes, hrest⟩ := ih
    obtain ⟨more, outcome, hfirst⟩ := hready first.task
    refine ⟨max enough more, outcome :: outcomes, ?_⟩
    intro fuel hle
    rw [List.map_cons, mapM_cons_eq, hrest fuel (by omega),
      Polling.await_mono hfirst (by omega : more ≤ fuel)]
    rfl

include h hk hc hlimit hready

/-- A drain step and what follows it, given that the run ends from then on. -/
theorem run_of_drain {steps : Nat} {state : State W O C T} {depth : Nat}
    (hst : Steady setting root world depth ⟨steps, state, []⟩)
    (hrest : ∀ fuel outcomes, List.Forall₂ (fun pending outcome =>
        Polling.await setting.host.poll world fuel pending.task = some outcome)
          (resolveQueued setting root.height state).pending outcomes →
      ∃ enough, ∀ fuel, enough ≤ fuel → ∃ final, run setting root.height fuel (steps + 1)
        (applyAll setting (resolveQueued setting root.height state).pending outcomes
          { resolveQueued setting root.height state with world, pending := [] })
            = some (none, final)) :
    ∃ enough, ∀ fuel, enough ≤ fuel →
      ∃ final, run setting root.height fuel steps state = some (none, final) := by
  have hworld := (hst.resolveQueued h hk hc).1.quiet.world_eq
  generalize hresolved : resolveQueued setting root.height state = resolved at hrest hworld
  obtain ⟨polls, outcomes, houtcomes⟩ := exists_outcomes hready resolved.pending
  obtain ⟨enough, hrest⟩ := hrest polls outcomes
    (List.forall₂_map_left_iff.1 (mapM_eq_some_iff.1 (houtcomes polls (Nat.le_refl _))))
  refine ⟨max polls enough + 1, ?_⟩
  intro fuel hle
  cases fuel with
  | zero => omega
  | succ fuel =>
    obtain ⟨final, hfinal⟩ := hrest fuel (by omega)
    have hdrain : drain setting (fuel + 1) resolved = some (.completed outcomes, world) := by
      rw [drain_eq h hc fuel hworld, houtcomes _ (by omega)]
      rfl
    have hworld : resolved.world = world := hworld
    by_cases hp : resolved.pending.isEmpty
    · exact ⟨resolved, by simp [run, hresolved, hp]⟩
    · refine ⟨final, ?_⟩
      simp only [run, hresolved, hp, hworld, stop?_eq_none hc hlimit, hdrain]
      exact hfinal

/-- The engine ends if the interpreter has an answer to everything that is open. -/
theorem run_ends {depth steps : Nat} {state : State W O C T}
    (hst : Steady setting root world depth ⟨steps, state, []⟩) :
    ∃ enough, ∀ fuel, enough ≤ fuel →
      ∃ final, run setting root.height fuel steps state = some (none, final) := by
  induction depth generalizing steps state with
  | zero =>
    obtain ⟨hresolved, hf⟩ := hst.resolveQueued h hk hc
    refine run_of_drain h hk hc hlimit hready hst fun fuel outcomes ho => ⟨1, ?_⟩
    intro fuel hle
    generalize resolveQueued setting root.height state = resolved at hresolved hf
    -- Nothing that is open exists, so the outcomes are dropped and nothing is left.
    have hgone : ∀ p ∈ resolved.pending, resolved.data.at? p.path = none := by
      intro p hp
      rw [← Option.not_isSome_iff_eq_none]
      intro hlive
      cases hresolved.bounded (.task p) (by simp [works, hp]) hlive
    have happly : applyAll setting resolved.pending outcomes
        { resolved with world, pending := [] } = { resolved with world, pending := [] } :=
      applyAll_of_none hgone
    simp only [happly]
    cases fuel with
    | zero => omega
    | succ fuel =>
      have hq : ∀ levels, resolveQueued setting levels
          { resolved with world, pending := [] } = { resolved with world, pending := [] } := by
        intro levels
        cases levels <;> simp [resolveQueued, hf]
      exact ⟨_, by simp [run, hq]; rfl⟩
  | succ depth ih =>
    obtain ⟨hresolved, hf⟩ := hst.resolveQueued h hk hc
    exact run_of_drain h hk hc hlimit hready hst fun fuel outcomes ho =>
      ih (hresolved.applyAll h hk hc hf ho)

end

end QueryEngine.Execution
