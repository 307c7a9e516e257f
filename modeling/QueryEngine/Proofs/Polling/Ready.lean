import QueryEngine.Proofs.Polling

/-!
# Batches that become ready

A batch comes to an end when each of its tasks becomes ready (`isSome_drain`): tasks that are polled
round after round may become ready in different rounds, and tasks that are polled one after the
other each in its turn. What the polls of a task find depends on the other tasks, since all of them
share a world, so `Ready` speaks of the polls of the whole batch. Tasks that are ready after some
polls whatever they find make every batch ready (`ready_of_acc`).
-/

namespace QueryEngine.Polling

variable {W T R : Type} {poll : T → W → Progress T R × W} {cancelled : W → Bool}

/-- A batch, and the world, after a number of rounds. -/
def rounds (poll : T → W → Progress T R × W) :
    Nat → List (Progress T R) → W → List (Progress T R) × W
  | 0, batch, world => (batch, world)
  | n + 1, batch, world => rounds poll n (round poll batch world).1 (round poll batch world).2

/-- Each task becomes ready when its turn comes. -/
def ReadyInTurn (poll : T → W → Progress T R × W) : List T → W → Prop
  | [], _ => True
  | task :: rest, world => ∃ fuel result after,
    force poll (fun _ => false) fuel task world = some (some result, after)
      ∧ ReadyInTurn poll rest after

/-- Each task of a batch becomes ready, when the batch is polled as the mode says. -/
def Ready (poll : T → W → Progress T R × W) (mode : DrainMode) (tasks : List T) (world : W) :
    Prop :=
  match mode with
  | .concurrent => ∀ i < tasks.length, ∃ n result,
    (rounds poll n (tasks.map .waiting) world).1[i]? = some (.ready result)
  | .sequential => ReadyInTurn poll tasks world

/-! ## Round after round -/

section
variable {batch : List (Progress T R)} {world : W} {i : Nat}

/-- In a round each task is polled in some world. -/
theorem getElem?_round (poll : T → W → Progress T R × W) (batch : List (Progress T R)) (world : W)
    (i : Nat) :
    ∃ found, (round poll batch world).1[i]?
      = batch[i]?.map fun progress => (advance poll progress found).1 := by
  induction batch generalizing world i with
  | nil => exact ⟨world, rfl⟩
  | cons progress rest ih =>
    cases i with
    | zero => exact ⟨world, rfl⟩
    | succ i => exact ih _ i

/-- What is ready stays ready. -/
theorem ready_round {result : R} (h : batch[i]? = some (.ready result)) :
    (round poll batch world).1[i]? = some (.ready result) := by
  obtain ⟨found, hround⟩ := getElem?_round poll batch world i
  rw [hround, h]
  rfl

/-- A task that is ready stays so for any number of rounds. -/
theorem ready_rounds {result : R} (n : Nat) (h : batch[i]? = some (.ready result)) :
    (rounds poll n batch world).1[i]? = some (.ready result) := by
  induction n generalizing batch world with
  | zero => exact h
  | succ n ih => exact ih (ready_round h)

/-- Rounds can be counted in two parts. -/
theorem rounds_add (n more : Nat) (batch : List (Progress T R)) (world : W) :
    rounds poll (n + more) batch world
      = rounds poll more (rounds poll n batch world).1 (rounds poll n batch world).2 := by
  induction n generalizing batch world with
  | zero => rw [Nat.zero_add]; rfl
  | succ n ih =>
    rw [Nat.succ_add]
    exact ih ..

/-- Tasks that become ready are all ready after some rounds. -/
theorem exists_rounds (count : Nat)
    (h : ∀ i < count, ∃ n result, (rounds poll n batch world).1[i]? = some (.ready result)) :
    ∃ n, ∀ i < count, ∃ result, (rounds poll n batch world).1[i]? = some (.ready result) := by
  induction count with
  | zero => exact ⟨0, nofun⟩
  | succ count ih =>
    obtain ⟨n, hn⟩ := ih fun i hi => h i (by omega)
    obtain ⟨more, result, hmore⟩ := h count (by omega)
    refine ⟨n + more, fun i hi => ?_⟩
    rcases Nat.lt_succ_iff_lt_or_eq.1 hi with hi | rfl
    · obtain ⟨result, hr⟩ := hn i hi
      exact ⟨result, by rw [rounds_add, ready_rounds more hr]⟩
    · exact ⟨result, by rw [Nat.add_comm, rounds_add, ready_rounds n hmore]⟩

/-- A batch of which all is ready has results. -/
theorem isSome_results? (h : ∀ i < batch.length, ∃ result, batch[i]? = some (.ready result)) :
    (results? batch).isSome := by
  induction batch with
  | nil => rfl
  | cons progress rest ih =>
    obtain ⟨result, hr⟩ := h 0 (by simp)
    obtain rfl : progress = .ready result := Option.some.inj hr
    have hrest := ih fun i hi => h (i + 1) (by simpa using hi)
    rw [results?, Option.isSome_map]
    exact hrest

/-- A batch that has results after some rounds comes to an end. -/
theorem isSome_concurrently (cancelled : W → Bool) (n : Nat)
    (h : (results? (rounds poll (n + 1) batch world).1).isSome) :
    (concurrently poll cancelled (n + 1) batch world).isSome := by
  induction n generalizing batch world with
  | zero =>
    obtain ⟨results, hr⟩ := Option.isSome_iff_exists.1 h
    have hr : results? (round poll batch world).1 = some results := hr
    simp [concurrently, hr]
  | succ n ih =>
    have hrest : (concurrently poll cancelled (n + 1) (round poll batch world).1
        (round poll batch world).2).isSome := ih h
    simp only [concurrently] at hrest ⊢
    split
    · rfl
    · split
      · rfl
      · exact hrest

end

/-! ## One after the other -/

/-- A task that becomes ready does so unless it is cancelled before. -/
theorem force_of_ready (cancelled : W → Bool) {fuel : Nat} {task : T} {world after : W} {result : R}
    (h : force poll (fun _ => false) fuel task world = some (some result, after)) :
    force poll cancelled fuel task world = some (some result, after)
      ∨ ∃ stopped, force poll cancelled fuel task world = some (none, stopped) := by
  induction fuel generalizing task world with
  | zero => cases h
  | succ fuel ih =>
    simp only [force] at h ⊢
    generalize poll task world = polled at h
    obtain ⟨task | found, next⟩ := polled
    · simp only [Bool.false_eq_true, if_false] at h
      by_cases hc : cancelled next
      · exact .inr ⟨next, by simp only [hc, if_true]⟩
      · simpa only [hc, Bool.false_eq_true, if_false] using ih h
    · exact .inl h

/-- Tasks that are ready in turn can be forced one after the other, with enough fuel. -/
theorem isSome_sequentially (cancelled : W → Bool) {tasks : List T} {world : W}
    (h : ReadyInTurn poll tasks world) :
    ∃ fuel, (sequentially poll cancelled fuel tasks world).isSome := by
  induction tasks generalizing world with
  | nil => exact ⟨0, rfl⟩
  | cons task rest ih =>
    obtain ⟨fuel, result, after, hforce, hrest⟩ := h
    obtain ⟨more, hmore⟩ := ih hrest
    obtain ⟨⟨batch, last⟩, hlast⟩ := Option.isSome_iff_exists.1 hmore
    refine ⟨max fuel more, ?_⟩
    rw [sequentially]
    rcases force_of_ready cancelled hforce with hready | ⟨stopped, hstopped⟩
    · simp only [force_mono hready (Nat.le_max_left fuel more),
        sequentially_mono hlast (Nat.le_max_right fuel more)]
      cases batch <;> rfl
    · simp only [force_mono hstopped (Nat.le_max_left fuel more)]
      rfl

/-! ## In either mode -/

/-- A batch whose tasks become ready comes to an end. -/
theorem isSome_drain (cancelled : W → Bool) {mode : DrainMode} {tasks : List T} {world : W}
    (h : Ready poll mode tasks world) :
    ∃ fuel, (drain poll cancelled mode fuel tasks world).isSome := by
  cases mode with
  | sequential => exact isSome_sequentially cancelled h
  | concurrent =>
    obtain ⟨n, hn⟩ := exists_rounds tasks.length h
    refine ⟨n + 1, isSome_concurrently cancelled n (isSome_results? fun i hi => ?_)⟩
    have hlength : ∀ n (batch : List (Progress T R)) (world : W),
        (rounds poll n batch world).1.length = batch.length := by
      intro n
      induction n with
      | zero => exact fun _ _ => rfl
      | succ n ih => exact fun batch world => (ih ..).trans (length_round ..)
    rw [hlength, List.length_map] at hi
    obtain ⟨result, hr⟩ := hn i hi
    exact ⟨result, by rw [rounds_add, ready_rounds 1 hr]⟩

section
variable (hready : ∀ task, Acc (fun next task => ∃ world, (poll task world).1 = .waiting next) task)
include hready

/-- In a batch a task becomes ready that is ready after some polls whatever it finds. -/
theorem exists_rounds_of_acc {batch : List (Progress T R)} {world : W} {i : Nat}
    (hi : i < batch.length) :
    ∃ n result, (rounds poll n batch world).1[i]? = some (.ready result) := by
  have hwaiting : ∀ task (batch : List (Progress T R)) (world : W),
      batch[i]? = some (.waiting task) →
        ∃ n result, (rounds poll n batch world).1[i]? = some (.ready result) := by
    intro task
    induction hready task with
    | intro task _ ih =>
      intro batch world hb
      obtain ⟨found, hround⟩ := getElem?_round poll batch world i
      rw [hb] at hround
      cases hp : (poll task found).1 with
      | waiting next =>
        have hnext : (round poll batch world).1[i]? = some (.waiting next) :=
          hround.trans (congrArg some hp)
        obtain ⟨n, result, hr⟩ := ih next ⟨found, hp⟩ _ (round poll batch world).2 hnext
        exact ⟨n + 1, result, hr⟩
      | ready result => exact ⟨1, result, hround.trans (congrArg some hp)⟩
  rcases hb : batch[i] with task | result
  · exact hwaiting task batch world (List.getElem?_eq_some_iff.2 ⟨hi, hb⟩)
  · exact ⟨0, result, List.getElem?_eq_some_iff.2 ⟨hi, hb⟩⟩

/-- A task becomes ready when it is forced. -/
theorem exists_force_of_acc (task : T) (world : W) :
    ∃ fuel result after,
      force poll (fun _ => false) fuel task world = some (some result, after) := by
  induction hready task generalizing world with
  | intro task _ ih =>
    rcases hp : poll task world with ⟨next | result, after⟩
    · obtain ⟨fuel, result, last, hlast⟩ := ih next ⟨world, by rw [hp]⟩ after
      exact ⟨fuel + 1, result, last, by simpa [force, hp] using hlast⟩
    · exact ⟨1, result, after, by simp [force, hp]⟩

/-- Tasks that are ready after some polls, whatever these find, make every batch ready. -/
theorem ready_of_acc (mode : DrainMode) (tasks : List T) (world : W) :
    Ready poll mode tasks world := by
  cases mode with
  | concurrent => exact fun i hi => exists_rounds_of_acc hready (by simpa using hi)
  | sequential =>
    have hturn : ReadyInTurn poll tasks world := by
      induction tasks generalizing world with
      | nil => trivial
      | cons task rest ih =>
        obtain ⟨fuel, result, after, hforce⟩ := exists_force_of_acc hready task world
        exact ⟨fuel, result, after, hforce, ih after⟩
    exact hturn

end

end QueryEngine.Polling
