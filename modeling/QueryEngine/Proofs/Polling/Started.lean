import QueryEngine.Proofs.Polling

/-!
# Which tasks of a batch are started

Numbering the tasks of a batch, and noting the number of a task when it is polled for the first
time, shows what polling does with each task (`drain_noting`): the tasks are started in order and
none is started twice, all of them if the batch completes, and the result at a position comes from
the task at that position.
-/

namespace QueryEngine

variable {W T R : Type}

variable (T) in
/-- A task with its number, and whether it was polled before. -/
structure Numbered where
  number : Nat
  started : Bool
  task : T

/-- How far a numbered task is. -/
def Progress.number (started : Bool) (number : Nat) :
    Progress T R → Progress (Numbered T) (R × Nat)
  | .waiting task => .waiting ⟨number, started, task⟩
  | .ready result => .ready (result, number)

/-- The results of a batch with the numbers of their tasks. -/
def Batch.numbered (first : Nat) : Batch R → Batch (R × Nat)
  | .completed results => .completed (results.zipIdx first)
  | .cancelled => .cancelled

namespace Polling

/-- Polls a task, notes its number if it is polled for the first time, and numbers its result. -/
def noting (poll : T → W → Progress T R × W) (numbered : Numbered T) (world : W × List Nat) :
    Progress (Numbered T) (R × Nat) × W × List Nat :=
  let notes := if numbered.started then world.2 else world.2 ++ [numbered.number]
  match poll numbered.task world.1 with
  | (.waiting task, world) => (.waiting ⟨numbered.number, true, task⟩, world, notes)
  | (.ready result, world) => (.ready (result, numbered.number), world, notes)

/-- Tasks that are not started yet, with numbers from `first` on. -/
def numbered (first : Nat) (tasks : List T) : List (Numbered T) :=
  (tasks.zipIdx first).map fun (task, number) => ⟨number, false, task⟩

variable {poll : T → W → Progress T R × W} {cancelled : W → Bool}

section
variable {world : W} {notes : List Nat} {first : Nat} {fuel : Nat}

/-- Advancing a task that was started before notes nothing. -/
theorem advance_number (number : Nat) (progress : Progress T R) :
    advance (noting poll) (progress.number true number) (world, notes)
      = ((advance poll progress world).1.number true number,
        (advance poll progress world).2, notes) := by
  cases progress with
  | ready result => rfl
  | waiting task =>
    simp only [Progress.number, advance, noting]
    generalize poll task world = polled
    obtain ⟨task | result, after⟩ := polled <;> rfl

/-- The first poll of a task notes its number. -/
theorem noting_fresh (number : Nat) (task : T) :
    noting poll ⟨number, false, task⟩ (world, notes)
      = ((poll task world).1.number true number, (poll task world).2, notes ++ [number]) := by
  simp only [noting]
  generalize poll task world = polled
  obtain ⟨task | result, after⟩ := polled <;> rfl

/-- The polls after the first one note nothing. -/
theorem noting_started (number : Nat) (task : T) :
    noting poll ⟨number, true, task⟩ (world, notes)
      = ((poll task world).1.number true number, (poll task world).2, notes) := by
  simp only [noting]
  generalize poll task world = polled
  obtain ⟨task | result, after⟩ := polled <;> rfl

/-! ## Round after round -/

/-- A round of tasks that were started notes nothing. -/
theorem round_started (batch : List (Progress T R)) :
    round (noting poll) ((batch.zipIdx first).map fun (progress, number) =>
        progress.number true number) (world, notes)
      = (((round poll batch world).1.zipIdx first).map fun (progress, number) =>
          progress.number true number, (round poll batch world).2, notes) := by
  induction batch generalizing first world with
  | nil => rfl
  | cons progress rest ih =>
    simp only [List.zipIdx_cons, List.map_cons, round, advance_number, ih]

/-- The first round starts each task. -/
theorem round_fresh (tasks : List T) :
    round (noting poll) ((numbered first tasks).map .waiting) (world, notes)
      = (((round poll (tasks.map .waiting) world).1.zipIdx first).map fun (progress, number) =>
          progress.number true number, (round poll (tasks.map .waiting) world).2,
        notes ++ List.range' first tasks.length) := by
  induction tasks generalizing first world notes with
  | nil => simp [numbered, round]
  | cons task rest ih =>
    have hnumbered : numbered first (task :: rest)
        = ⟨first, false, task⟩ :: numbered (first + 1) rest := rfl
    simp only [hnumbered, List.map_cons, round, advance, noting_fresh, ih, List.zipIdx_cons,
      List.length_cons, List.range'_succ, List.append_assoc, List.singleton_append]

/-- Numbering a batch numbers its results. -/
theorem results?_number (started : Bool) (batch : List (Progress T R)) :
    results? ((batch.zipIdx first).map fun (progress, number) => progress.number started number)
      = (results? batch).map (·.zipIdx first) := by
  induction batch generalizing first with
  | nil => rfl
  | cons progress rest ih =>
    cases progress with
    | waiting task => rfl
    | ready result =>
      rw [List.zipIdx_cons, List.map_cons]
      show (results? _).map ((result, first) :: ·) = _
      rw [ih, results?, Option.map_map, Option.map_map]
      rfl

/-- Rounds over tasks that were all started before note nothing. -/
theorem concurrently_started (batch : List (Progress T R)) :
    concurrently (noting poll) (cancelled ∘ Prod.fst) fuel
        ((batch.zipIdx first).map fun (progress, number) => progress.number true number)
        (world, notes)
      = (concurrently poll cancelled fuel batch world).map fun (batch, after) =>
          (batch.numbered first, after, notes) := by
  induction fuel generalizing batch world with
  | zero => rfl
  | succ fuel ih =>
    simp only [concurrently, round_started, results?_number, Function.comp_apply]
    cases results? (round poll batch world).1 with
    | some results => rfl
    | none =>
      simp only [Option.map_none, ih]
      split <;> rfl

/-- The first round notes every task, in the order of the batch, and the rounds after it none. -/
theorem concurrently_fresh (tasks : List T) :
    concurrently (noting poll) (cancelled ∘ Prod.fst) fuel ((numbered first tasks).map .waiting)
        (world, notes)
      = (concurrently poll cancelled fuel (tasks.map .waiting) world).map fun (batch, after) =>
          (batch.numbered first, after, notes ++ List.range' first tasks.length) := by
  cases fuel with
  | zero => rfl
  | succ fuel =>
    simp only [concurrently, round_fresh, results?_number, Function.comp_apply]
    cases results? (round poll (tasks.map .waiting) world).1 with
    | some results => rfl
    | none =>
      simp only [Option.map_none, concurrently_started]
      split <;> rfl

/-! ## One after the other -/

/-- Forcing a task on from where it stands notes nothing. -/
theorem force_started (number : Nat) (task : T) :
    force (noting poll) (cancelled ∘ Prod.fst) fuel ⟨number, true, task⟩ (world, notes)
      = (force poll cancelled fuel task world).map fun (result, after) =>
          (result.map (·, number), after, notes) := by
  induction fuel generalizing task world with
  | zero => rfl
  | succ fuel ih =>
    simp only [force, noting_started]
    generalize poll task world = polled
    obtain ⟨task | result, after⟩ := polled
    · simp only [Progress.number, Function.comp_apply, ih]
      split <;> rfl
    · rfl

/-- A task that is forced is started once, and its result is numbered. -/
theorem force_fresh (number : Nat) (task : T) :
    force (noting poll) (cancelled ∘ Prod.fst) fuel ⟨number, false, task⟩ (world, notes)
      = (force poll cancelled fuel task world).map fun (result, after) =>
          (result.map (·, number), after, notes ++ [number]) := by
  cases fuel with
  | zero => rfl
  | succ fuel =>
    simp only [force, noting_fresh]
    generalize poll task world = polled
    obtain ⟨task | result, after⟩ := polled
    · simp only [Progress.number, Function.comp_apply, force_started]
      split <;> rfl
    · rfl

/-- Forcing tasks one after the other notes them in their order, up to the one that is cancelled. -/
theorem sequentially_fresh (first : Nat) (notes : List Nat) {tasks : List T} {batch : Batch R}
    {after : W}
    (h : sequentially poll cancelled fuel tasks world = some (batch, after)) :
    ∃ count ≤ tasks.length, (batch = .cancelled ∨ count = tasks.length)
      ∧ sequentially (noting poll) (cancelled ∘ Prod.fst) fuel (numbered first tasks)
          (world, notes)
        = some (batch.numbered first, after, notes ++ List.range' first count) := by
  induction tasks generalizing first world notes batch with
  | nil =>
    cases h
    exact ⟨0, Nat.le_refl 0, .inr rfl, by simp [sequentially, numbered, Batch.numbered]⟩
  | cons task rest ih =>
    have hnumbered : numbered first (task :: rest)
        = ⟨first, false, task⟩ :: numbered (first + 1) rest := rfl
    simp only [hnumbered, sequentially, force_fresh] at h ⊢
    cases hf : force poll cancelled fuel task world with
    | none => simp [hf] at h
    | some forced =>
      obtain ⟨_ | result, found⟩ := forced
      · rw [hf] at h
        cases h
        exact ⟨1, by simp, .inl rfl, rfl⟩
      · rw [hf] at h
        cases hs : sequentially poll cancelled fuel rest found with
        | none => simp [hs] at h
        | some others =>
          obtain ⟨others, last⟩ := others
          simp only [hs] at h
          obtain rfl : last = after := by cases others <;> cases h <;> rfl
          obtain ⟨count, hle, hall, hcount⟩ :=
            ih (first + 1) (notes ++ [first]) hs
          refine ⟨count + 1, by simpa using hle, ?_, ?_⟩
          · cases others with
            | cancelled =>
              cases h
              exact .inl rfl
            | completed results =>
              cases h
              refine .inr ?_
              simpa using hall
          · simp only [Option.map_some, hcount, List.range'_succ, List.append_assoc,
              List.singleton_append]
            cases others <;> cases h <;> rfl

end

/-- A batch that comes to an end does so when its tasks are numbered, with the numbers of the tasks
that were started: no task twice, and in order. If it completes, all of them were, and each result
has the number of its position. -/
theorem drain_noting {mode : DrainMode} {fuel : Nat} {tasks : List T} {world after : W}
    {batch : Batch R}
    (h : drain poll cancelled mode fuel tasks world = some (batch, after)) :
    ∃ count ≤ tasks.length, (batch = .cancelled ∨ count = tasks.length)
      ∧ drain (noting poll) (cancelled ∘ Prod.fst) mode fuel (numbered 0 tasks) (world, [])
        = some (batch.numbered 0, after, List.range count) := by
  cases mode with
  | concurrent =>
    have h : concurrently poll cancelled fuel (tasks.map .waiting) world = some (batch, after) := h
    refine ⟨tasks.length, Nat.le_refl _, .inr rfl, ?_⟩
    simp only [drain, concurrently_fresh, h, Option.map_some, List.nil_append, List.range_eq_range']
  | sequential =>
    obtain ⟨count, hle, hall, hcount⟩ := sequentially_fresh 0 [] h
    exact ⟨count, hle, hall, by simpa [drain, List.range_eq_range'] using hcount⟩

end Polling

end QueryEngine
