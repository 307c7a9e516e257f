import Mathlib.Data.List.Forall2
import QueryEngine.Polling

/-!
# Batches

A batch that completes has one result for each of its tasks, in either mode
(`length_of_drain_eq_completed`), and what becomes of a batch does not depend on the fuel
(`drain_unique`). A drain leads where polls lead (`drain_leads`). Where polls leave the world as it
is and nothing is cancelled, both modes amount to awaiting the tasks one by one (`drain_eq`). Where
polls do what those of a model do, a batch drains as the batch of the model does (`drain_tracks`).
-/

namespace QueryEngine

/-! ## Results of a list -/

section
variable {α β : Type} {f : α → Option β}

/-- A list has results if its head and its tail have some, as an induction on the list needs it. -/
theorem mapM_cons_eq (a : α) (rest : List α) :
    (a :: rest).mapM f = (f a).bind fun b => (rest.mapM f).map (b :: ·) := by
  rw [List.mapM_cons]
  cases f a with
  | none => rfl
  | some b => cases rest.mapM f <;> rfl

/-- A list has results if each of its members has one. -/
theorem mapM_eq_some_iff {values : List α} {results : List β} :
    values.mapM f = some results
      ↔ List.Forall₂ (fun a b => f a = some b) values results := by
  induction values generalizing results with
  | nil => simp [eq_comm]
  | cons a rest ih =>
    rw [mapM_cons_eq, List.forall₂_cons_left_iff]
    simp only [Option.bind_eq_some_iff, Option.map_eq_some_iff, ih]
    constructor
    · rintro ⟨b, hb, others, ho, rfl⟩
      exact ⟨b, others, hb, ho, rfl⟩
    · rintro ⟨b, others, hb, ho, rfl⟩
      exact ⟨b, hb, others, ho, rfl⟩

/-- A list has results if each of its members has one, whatever they are. -/
theorem isSome_mapM {values : List α} : (values.mapM f).isSome ↔ ∀ a ∈ values, (f a).isSome := by
  induction values with
  | nil => simp
  | cons a rest ih =>
    rw [mapM_cons_eq, List.forall_mem_cons, ← ih]
    cases f a <;> simp

/-- With more answers a list that had results has the same ones. -/
theorem mapM_mono {g : α → Option β} {values : List α} {results : List β}
    (hg : ∀ a b, f a = some b → g a = some b) (h : values.mapM f = some results) :
    values.mapM g = some results :=
  mapM_eq_some_iff.2 ((mapM_eq_some_iff.1 h).imp hg)

end

namespace Polling

variable {W T R : Type} {poll : T → W → Progress T R × W} {cancelled : W → Bool}

/-- A round keeps every task in its place in the batch. -/
theorem length_round (batch : List (Progress T R)) (world : W) :
    (round poll batch world).1.length = batch.length := by
  induction batch generalizing world with
  | nil => rfl
  | cons progress rest ih => simp [round, ih]

/-- A batch with results is ready. -/
theorem eq_map_ready_of_results? {batch : List (Progress T R)} {results : List R}
    (h : results? batch = some results) : batch = results.map .ready := by
  induction batch generalizing results with
  | nil => cases h; rfl
  | cons progress rest ih =>
    cases progress with
    | waiting task => cases h
    | ready result =>
      obtain ⟨others, ho, rfl⟩ := Option.map_eq_some_iff.1 h
      rw [ih ho, List.map_cons]

/-- In a batch without results some task waits. -/
theorem exists_waiting_of_results? {batch : List (Progress T R)} (h : results? batch = none) :
    ∃ task, .waiting task ∈ batch := by
  induction batch with
  | nil => cases h
  | cons progress rest ih =>
    cases progress with
    | waiting task => exact ⟨task, List.mem_cons_self ..⟩
    | ready result =>
      obtain ⟨task, ht⟩ := ih (Option.map_eq_none_iff.1 h)
      exact ⟨task, List.mem_cons_of_mem _ ht⟩

/-- A ready batch has one result for each task. -/
theorem length_of_results?_eq {batch : List (Progress T R)} {results : List R}
    (h : results? batch = some results) : results.length = batch.length := by
  rw [eq_map_ready_of_results? h, List.length_map]

/-- Rounds that complete end with one result for each task, since no round drops one. -/
theorem length_of_concurrently_eq {fuel : Nat} {batch : List (Progress T R)} {world after : W}
    {results : List R}
    (h : concurrently poll cancelled fuel batch world = some (.completed results, after)) :
    results.length = batch.length := by
  induction fuel generalizing batch world with
  | zero => cases h
  | succ fuel ih =>
    simp only [concurrently] at h
    split at h
    · rename_i hr
      cases h
      rw [length_of_results?_eq hr, length_round]
    · split at h
      · cases h
      · rw [ih h, length_round]

/-- Forcing tasks one after the other ends with one result for each. -/
theorem length_of_sequentially_eq {fuel : Nat} {tasks : List T} {world after : W}
    {results : List R}
    (h : sequentially poll cancelled fuel tasks world = some (.completed results, after)) :
    results.length = tasks.length := by
  induction tasks generalizing world results with
  | nil => cases h; rfl
  | cons task rest ih =>
    simp only [sequentially] at h
    split at h
    · cases h
    · cases h
    · split at h
      · cases h
      · cases h
      · rename_i hs
        cases h
        simp [ih hs]

/-- A batch that completes has one result for each task. -/
theorem length_of_drain_eq_completed {mode : DrainMode} {fuel : Nat} {tasks : List T}
    {world after : W} {results : List R}
    (h : drain poll cancelled mode fuel tasks world = some (.completed results, after)) :
    results.length = tasks.length := by
  cases mode with
  | concurrent => simpa using length_of_concurrently_eq h
  | sequential => exact length_of_sequentially_eq h

/-! ## Fuel -/

/-- Rounds that came to something come to the same with more fuel. -/
theorem concurrently_mono {fuel more : Nat} {batch : List (Progress T R)} {world : W}
    {result : Batch R × W} (h : concurrently poll cancelled fuel batch world = some result)
    (hle : fuel ≤ more) : concurrently poll cancelled more batch world = some result := by
  induction fuel generalizing batch world more with
  | zero => cases h
  | succ fuel ih =>
    obtain ⟨more, rfl⟩ : ∃ n, more = n + 1 := ⟨more - 1, by omega⟩
    simp only [concurrently] at h ⊢
    split
    · rename_i hr
      simpa only [hr] using h
    · rename_i hr
      simp only [hr] at h
      split
      · rename_i hc
        simpa only [hc, if_true] using h
      · rename_i hc
        simp only [hc, Bool.false_eq_true, if_false] at h
        exact ih h (by omega)

/-- A task that was forced with some fuel is forced so with more. -/
theorem force_mono {fuel more : Nat} {task : T} {world : W} {result : Option R × W}
    (h : force poll cancelled fuel task world = some result) (hle : fuel ≤ more) :
    force poll cancelled more task world = some result := by
  induction fuel generalizing task world more with
  | zero => cases h
  | succ fuel ih =>
    obtain ⟨more, rfl⟩ : ∃ n, more = n + 1 := ⟨more - 1, by omega⟩
    simp only [force] at h ⊢
    split
    · rename_i hp
      simpa only [hp] using h
    · rename_i hp
      simp only [hp] at h
      split
      · rename_i hc
        simpa only [hc, if_true] using h
      · rename_i hc
        simp only [hc, Bool.false_eq_true, if_false] at h
        exact ih h (by omega)

/-- Forcing tasks one after the other comes to the same with more fuel. -/
theorem sequentially_mono {fuel more : Nat} {tasks : List T} {world : W}
    {result : Batch R × W} (h : sequentially poll cancelled fuel tasks world = some result)
    (hle : fuel ≤ more) : sequentially poll cancelled more tasks world = some result := by
  induction tasks generalizing world result with
  | nil => exact h
  | cons task rest ih =>
    simp only [sequentially] at h ⊢
    cases hf : force poll cancelled fuel task world with
    | none => simp [hf] at h
    | some forced =>
      rw [force_mono hf hle]
      rw [hf] at h
      rcases forced with ⟨_ | first, after⟩
      · exact h
      · cases hs : sequentially poll cancelled fuel rest after with
        | none => simp [hs] at h
        | some others =>
          simp only [hs] at h
          simpa only [ih hs] using h

/-- A batch that comes to an end does so in the same way with more fuel. -/
theorem drain_mono {mode : DrainMode} {fuel more : Nat} {tasks : List T} {world : W}
    {result : Batch R × W} (h : drain poll cancelled mode fuel tasks world = some result)
    (hle : fuel ≤ more) : drain poll cancelled mode more tasks world = some result := by
  cases mode with
  | concurrent => exact concurrently_mono h hle
  | sequential => exact sequentially_mono h hle

/-- Whatever the fuel, a batch comes to one end at most. -/
theorem drain_unique {mode : DrainMode} {fuel other : Nat} {tasks : List T} {world : W}
    {a b : Batch R × W} (ha : drain poll cancelled mode fuel tasks world = some a)
    (hb : drain poll cancelled mode other tasks world = some b) : a = b := by
  have ha' := drain_mono ha (Nat.le_max_left fuel other)
  have hb' := drain_mono hb (Nat.le_max_right fuel other)
  exact Option.some.inj (ha'.symm.trans hb')

/-! ## Where polls lead -/

section
variable {r : W → W → Prop} (hrefl : ∀ world, r world world)
  (htrans : ∀ {a b c}, r a b → r b c → r a c) (hpoll : ∀ task world, r world (poll task world).2)
include hrefl htrans hpoll

/-- A round leads where polls lead. -/
theorem round_leads (batch : List (Progress T R)) (world : W) :
    r world (round poll batch world).2 := by
  induction batch generalizing world with
  | nil => exact hrefl world
  | cons progress rest ih =>
    refine htrans ?_ (ih _)
    cases progress with
    | waiting task => exact hpoll task world
    | ready result => exact hrefl world

/-- So do all rounds together, up to the end or a cancellation. -/
theorem concurrently_leads {fuel : Nat} {progresses : List (Progress T R)} {world after : W}
    {batch : Batch R}
    (h : concurrently poll cancelled fuel progresses world = some (batch, after)) :
    r world after := by
  induction fuel generalizing progresses world with
  | zero => cases h
  | succ fuel ih =>
    have hround := round_leads hrefl htrans hpoll progresses world
    simp only [concurrently] at h
    split at h
    · cases h
      exact hround
    · split at h
      · cases h
        exact hround
      · exact htrans hround (ih h)

omit hrefl in
/-- So does forcing one task. -/
theorem force_leads {fuel : Nat} {task : T} {world after : W} {result : Option R}
    (h : force poll cancelled fuel task world = some (result, after)) : r world after := by
  induction fuel generalizing task world with
  | zero => cases h
  | succ fuel ih =>
    have hfirst := hpoll task world
    simp only [force] at h
    split at h
    · rename_i hp
      cases h
      rwa [hp] at hfirst
    · rename_i hp
      rw [hp] at hfirst
      split at h
      · cases h
        exact hfirst
      · exact htrans hfirst (ih h)

/-- So does forcing tasks one after the other. -/
theorem sequentially_leads {fuel : Nat} {tasks : List T} {world after : W} {batch : Batch R}
    (h : sequentially poll cancelled fuel tasks world = some (batch, after)) : r world after := by
  induction tasks generalizing world batch with
  | nil =>
    cases h
    exact hrefl _
  | cons task rest ih =>
    simp only [sequentially] at h
    split at h
    · cases h
    · rename_i hf
      cases h
      exact force_leads (r := r) htrans hpoll hf
    · rename_i hf
      have hfirst := force_leads (r := r) htrans hpoll hf
      split at h
      · cases h
      · rename_i hs
        cases h
        exact htrans hfirst (ih hs)
      · rename_i hs
        cases h
        exact htrans hfirst (ih hs)

/-- Draining a batch leads where polls lead. -/
theorem drain_leads {mode : DrainMode} {fuel : Nat} {tasks : List T} {world after : W}
    {batch : Batch R} (h : drain poll cancelled mode fuel tasks world = some (batch, after)) :
    r world after := by
  cases mode with
  | concurrent => exact concurrently_leads hrefl htrans hpoll h
  | sequential => exact sequentially_leads hrefl htrans hpoll h

end

/-! ## Polls without side effects -/

/-- The result of a task that is polled in one world until it is ready. -/
def await (poll : T → W → Progress T R × W) (world : W) : Nat → T → Option R
  | 0, _ => none
  | fuel + 1, task =>
    match (poll task world).1 with
    | .ready result => some result
    | .waiting task => await poll world fuel task

/-- Awaiting longer does not change the result. -/
theorem await_mono {world : W} {fuel more : Nat} {task : T} {result : R}
    (h : await poll world fuel task = some result) (hle : fuel ≤ more) :
    await poll world more task = some result := by
  induction fuel generalizing task more with
  | zero => cases h
  | succ fuel ih =>
    cases more with
    | zero => omega
    | succ more =>
      simp only [await] at h ⊢
      split
      · rename_i hp
        simpa [hp] using h
      · rename_i hp
        rw [hp] at h
        exact ih h (by omega)

/-- Awaiting what is left of a task. -/
def settle (poll : T → W → Progress T R × W) (world : W) (fuel : Nat) :
    Progress T R → Option R
  | .ready result => some result
  | .waiting task => await poll world fuel task

/-- A result that a task has with some fuel it has with more. -/
theorem settle_mono {world : W} {fuel more : Nat} (hle : fuel ≤ more) (progress : Progress T R)
    (result : R) (h : settle poll world fuel progress = some result) :
    settle poll world more progress = some result := by
  cases progress with
  | ready _ => exact h
  | waiting task => exact await_mono h hle

section
variable {world : W} (hpoll : ∀ task, (poll task world).2 = world)
include hpoll

/-- Where polls leave the world as it is, so does advancing one task. -/
theorem advance_snd (progress : Progress T R) : (advance poll progress world).2 = world := by
  cases progress with
  | waiting task => exact hpoll task
  | ready result => rfl

omit hpoll in
/-- A poll is one step of awaiting. -/
theorem settle_advance (fuel : Nat) (progress : Progress T R) :
    settle poll world fuel (advance poll progress world).1
      = settle poll world (fuel + 1) progress := by
  cases progress with
  | waiting task =>
    simp only [advance, settle, await]
  | ready result => rfl

/-- There a round advances every task on its own, in one and the same world. -/
theorem round_eq (batch : List (Progress T R)) :
    round poll batch world
      = (batch.map fun progress => (advance poll progress world).1, world) := by
  induction batch with
  | nil => rfl
  | cons progress rest ih => simp [round, advance_snd hpoll, ih]

/-- Awaiting after a round. -/
theorem mapM_settle_round (fuel : Nat) (batch : List (Progress T R)) :
    (round poll batch world).1.mapM (settle poll world fuel)
      = batch.mapM (settle poll world (fuel + 1)) := by
  rw [round_eq hpoll, List.mapM_map]
  congr
  funext progress
  exact settle_advance fuel progress

omit hpoll in
/-- Reading the results of a batch is settling it without polls. -/
theorem results?_eq (poll : T → W → Progress T R × W) (world : W) (batch : List (Progress T R)) :
    results? batch = batch.mapM (settle poll world 0) := by
  induction batch with
  | nil => rfl
  | cons progress rest ih =>
    rw [mapM_cons_eq]
    cases progress with
    | waiting task => rfl
    | ready result => rw [results?, ih]; rfl

variable (hc : cancelled world = false)
include hc

/-- Polling round after round is awaiting each task. -/
theorem concurrently_eq (fuel : Nat) (batch : List (Progress T R)) :
    concurrently poll cancelled (fuel + 1) batch world
      = (batch.mapM (settle poll world (fuel + 1))).map fun results =>
        (.completed results, world) := by
  induction fuel generalizing batch with
  | zero =>
    rw [concurrently, round_eq hpoll, ← mapM_settle_round hpoll, round_eq hpoll]
    simp only [results?_eq poll world]
    cases (batch.map fun progress => (advance poll progress world).1).mapM
      (settle poll world 0) <;> simp [hc, concurrently]
  | succ fuel ih =>
    rw [concurrently, round_eq hpoll, ← mapM_settle_round hpoll, round_eq hpoll]
    simp only [results?_eq poll world, hc, ih, Bool.false_eq_true, if_false]
    split
    · rename_i hr
      rw [mapM_mono (settle_mono (Nat.zero_le _)) hr]
      rfl
    · rfl

/-- Forcing a task is awaiting it. -/
theorem force_eq (fuel : Nat) (task : T) :
    force poll cancelled fuel task world
      = (await poll world fuel task).map fun result => (some result, world) := by
  induction fuel generalizing task with
  | zero => rfl
  | succ fuel ih =>
    have hw := hpoll task
    rw [force, await]
    rcases hp : poll task world with ⟨waiting | result, after⟩
    · obtain rfl : after = world := by rw [hp] at hw; exact hw
      simp [hc, ih]
    · obtain rfl : after = world := by rw [hp] at hw; exact hw
      rfl

/-- Polling task after task is awaiting each of them. -/
theorem sequentially_eq (fuel : Nat) (tasks : List T) :
    sequentially poll cancelled fuel tasks world
      = (tasks.mapM (await poll world fuel)).map fun results => (.completed results, world) := by
  induction tasks with
  | nil => rfl
  | cons task rest ih =>
    rw [sequentially, force_eq hpoll hc, mapM_cons_eq]
    cases await poll world fuel task with
    | none => rfl
    | some result =>
      simp only [Option.map_some, Option.bind_some, ih]
      cases rest.mapM (await poll world fuel) <;> rfl

/-- Without side effects both modes await each task. -/
theorem drain_eq (mode : DrainMode) (fuel : Nat) (tasks : List T) :
    drain poll cancelled mode (fuel + 1) tasks world
      = (tasks.mapM (await poll world (fuel + 1))).map fun results =>
        (.completed results, world) := by
  cases mode with
  | concurrent =>
    rw [drain, concurrently_eq hpoll hc, List.mapM_map]
    rfl
  | sequential => exact sequentially_eq hpoll hc ..

end

end Polling

/-! ## Polls that follow others -/

section
variable {W M T S R : Type}

/-- Both tasks are ready with one result, or both wait and the first follows the second. -/
inductive Progress.Tracks (tracks : T → S → Prop) : Progress T R → Progress S R → Prop
  | ready (result : R) : Progress.Tracks tracks (.ready result) (.ready result)
  | waiting {task : T} {stage : S} (h : tracks task stage) :
    Progress.Tracks tracks (.waiting task) (.waiting stage)

namespace Polling

variable {poll : T → W → Progress T R × W} {cancelled : W → Bool}
  {poll' : S → M → Progress S R × M} {tracks : T → S → Prop} {holds : W → M → Prop}
  (hpoll : ∀ task stage world model, tracks task stage → holds world model →
    Progress.Tracks tracks (poll task world).1 (poll' stage model).1
      ∧ holds (poll task world).2 (poll' stage model).2)
  (hc : ∀ world model, holds world model → cancelled world = false)

section
include hpoll

/-- A round does to the tasks of a batch what it does to those of the model. -/
theorem round_tracks {batch : List (Progress T R)} {batch' : List (Progress S R)}
    (hb : List.Forall₂ (Progress.Tracks tracks) batch batch') {world : W} {model : M}
    (hw : holds world model) :
    List.Forall₂ (Progress.Tracks tracks) (round poll batch world).1 (round poll' batch' model).1
      ∧ holds (round poll batch world).2 (round poll' batch' model).2 := by
  induction hb generalizing world model with
  | nil => exact ⟨.nil, hw⟩
  | @cons progress progress' rest rest' hp _ ih =>
    have hadvance : Progress.Tracks tracks (advance poll progress world).1
          (advance poll' progress' model).1
        ∧ holds (advance poll progress world).2 (advance poll' progress' model).2 := by
      cases hp with
      | ready result => exact ⟨.ready result, hw⟩
      | waiting ht => exact hpoll _ _ _ _ ht hw
    obtain ⟨hrest, hlast⟩ := ih hadvance.2
    exact ⟨.cons hadvance.1 hrest, hlast⟩

omit hpoll in
/-- Batches whose tasks track each other have the same results, or both have none yet. -/
theorem results?_tracks {batch : List (Progress T R)} {batch' : List (Progress S R)}
    (hb : List.Forall₂ (Progress.Tracks tracks) batch batch') :
    results? batch = results? batch' := by
  induction hb with
  | nil => rfl
  | cons hp _ ih =>
    cases hp with
    | ready result => rw [results?, results?, ih]
    | waiting ht => rfl

include hc

/-- Rounds come to what the rounds of the model come to, as long as nothing is cancelled. -/
theorem concurrently_tracks {fuel : Nat} {batch : List (Progress T R)}
    {batch' : List (Progress S R)} (hb : List.Forall₂ (Progress.Tracks tracks) batch batch')
    {world : W} {model model' : M} (hw : holds world model) {results : List R}
    (h : concurrently poll' (fun _ => false) fuel batch' model
      = some (.completed results, model')) :
    ∃ world', concurrently poll cancelled fuel batch world = some (.completed results, world')
      ∧ holds world' model' := by
  induction fuel generalizing batch batch' world model with
  | zero => cases h
  | succ fuel ih =>
    obtain ⟨hb', hw'⟩ := round_tracks hpoll hb hw
    simp only [concurrently, results?_tracks hb', hc _ _ hw', Bool.false_eq_true, if_false] at h ⊢
    split
    · rename_i hr
      simp only [hr] at h
      cases h
      exact ⟨_, rfl, hw'⟩
    · rename_i hr
      simp only [hr] at h
      exact ih hb' hw' h

/-- Forcing a task comes to what forcing the one of the model comes to. -/
theorem force_tracks {fuel : Nat} {task : T} {stage : S} (ht : tracks task stage) {world : W}
    {model model' : M} (hw : holds world model) {result : R}
    (h : force poll' (fun _ => false) fuel stage model = some (some result, model')) :
    ∃ world', force poll cancelled fuel task world = some (some result, world')
      ∧ holds world' model' := by
  induction fuel generalizing task stage world model with
  | zero => cases h
  | succ fuel ih =>
    obtain ⟨hp, hw'⟩ := hpoll _ _ _ _ ht hw
    rw [force] at h ⊢
    generalize poll task world = polled at hp hw' ⊢
    generalize poll' stage model = polled' at hp hw' h
    obtain ⟨progress, world'⟩ := polled
    obtain ⟨progress', model''⟩ := polled'
    cases hp with
    | ready result' =>
      cases h
      exact ⟨world', rfl, hw'⟩
    | waiting ht' =>
      simp only [hc _ _ hw', Bool.false_eq_true, if_false] at h ⊢
      exact ih ht' hw' h

/-- Forcing tasks one after the other comes to what it comes to in the model. -/
theorem sequentially_tracks {fuel : Nat} {tasks : List T} {stages : List S}
    (ht : List.Forall₂ tracks tasks stages) {world : W} {model model' : M}
    (hw : holds world model) {results : List R}
    (h : sequentially poll' (fun _ => false) fuel stages model
      = some (.completed results, model')) :
    ∃ world', sequentially poll cancelled fuel tasks world = some (.completed results, world')
      ∧ holds world' model' := by
  induction ht generalizing world model results with
  | nil =>
    cases h
    exact ⟨world, rfl, hw⟩
  | cons ht _ ih =>
    rw [sequentially] at h ⊢
    split at h
    · cases h
    · cases h
    · rename_i hf
      obtain ⟨world', hf', hw'⟩ := force_tracks hpoll hc ht hw hf
      split at h
      · cases h
      · cases h
      · rename_i hs
        cases h
        obtain ⟨last, hs', hlast⟩ := ih hw' hs
        refine ⟨last, ?_, hlast⟩
        simp only [hf', hs']

/-- Where the polls of tasks follow those of stages, a batch of tasks drains as the batch of
stages does. -/
theorem drain_tracks {mode : DrainMode} {fuel : Nat} {tasks : List T} {stages : List S}
    (ht : List.Forall₂ tracks tasks stages) {world : W} {model model' : M}
    (hw : holds world model) {results : List R}
    (h : drain poll' (fun _ => false) mode fuel stages model = some (.completed results, model')) :
    ∃ world', drain poll cancelled mode fuel tasks world = some (.completed results, world')
      ∧ holds world' model' := by
  cases mode with
  | sequential => exact sequentially_tracks hpoll hc ht hw h
  | concurrent =>
    have hb : List.Forall₂ (Progress.Tracks (R := R) tracks) (tasks.map .waiting)
        (stages.map .waiting) := by
      rw [List.forall₂_map_left_iff, List.forall₂_map_right_iff]
      exact ht.imp fun _ _ h => .waiting h
    exact concurrently_tracks hpoll hc hb hw h

end

end Polling

end

end QueryEngine
