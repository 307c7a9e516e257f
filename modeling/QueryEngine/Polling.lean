import QueryEngine.Configuration

/-!
# Polling

A task is polled until it is ready; a poll may change a world that all tasks share. `concurrently`
polls a batch round after round, each round every task that is not ready, in order, until all are
ready. `sequentially` polls one task until it is ready before it looks at the next one. Whenever a
batch is not ready the cancellation is looked at, and a cancelled batch is dropped. The fuel bounds
the rounds of a batch, or the polls of each task: a task that never becomes ready uses up any.
-/

namespace QueryEngine

/-- How far a task is. -/
inductive Progress (T R : Type) where
  | waiting (task : T)
  | ready (result : R)

/-- What becomes of a batch. -/
inductive Batch (R : Type) where
  | completed (results : List R)
  | cancelled

namespace Polling

variable {W T R : Type}

/-- Polls a task unless it is ready. -/
def advance (poll : T → W → Progress T R × W) (progress : Progress T R) (world : W) :
    Progress T R × W :=
  match progress with
  | .waiting task => poll task world
  | .ready result => (.ready result, world)

/-- Polls each task that is not ready, in order. -/
def round (poll : T → W → Progress T R × W) :
    List (Progress T R) → W → List (Progress T R) × W
  | [], world => ([], world)
  | progress :: rest, world =>
    let (progress, world) := advance poll progress world
    let (rest, world) := round poll rest world
    (progress :: rest, world)

/-- The results, if every task is ready. -/
def results? : List (Progress T R) → Option (List R)
  | [] => some []
  | .ready result :: rest => (results? rest).map (result :: ·)
  | .waiting _ :: _ => none

/-- Polls a batch round after round. -/
def concurrently (poll : T → W → Progress T R × W) (cancelled : W → Bool) :
    Nat → List (Progress T R) → W → Option (Batch R × W)
  | 0, _, _ => none
  | fuel + 1, batch, world =>
    let (batch, world) := round poll batch world
    match results? batch with
    | some results => some (.completed results, world)
    | none =>
      if cancelled world then some (.cancelled, world)
      else concurrently poll cancelled fuel batch world

/-- Polls a task until it is ready; it has no result if it is cancelled. -/
def force (poll : T → W → Progress T R × W) (cancelled : W → Bool) :
    Nat → T → W → Option (Option R × W)
  | 0, _, _ => none
  | fuel + 1, task, world =>
    match poll task world with
    | (.ready result, world) => some (some result, world)
    | (.waiting task, world) =>
      if cancelled world then some (none, world) else force poll cancelled fuel task world

/-- Polls the tasks of a batch one after the other. -/
def sequentially (poll : T → W → Progress T R × W) (cancelled : W → Bool) (fuel : Nat) :
    List T → W → Option (Batch R × W)
  | [], world => some (.completed [], world)
  | task :: rest, world =>
    match force poll cancelled fuel task world with
    | none => none
    | some (none, world) => some (.cancelled, world)
    | some (some result, world) =>
      match sequentially poll cancelled fuel rest world with
      | none => none
      | some (.cancelled, world) => some (.cancelled, world)
      | some (.completed results, world) => some (.completed (result :: results), world)

/-- Polls a batch in a mode. -/
def drain (poll : T → W → Progress T R × W) (cancelled : W → Bool) (mode : DrainMode)
    (fuel : Nat) (tasks : List T) (world : W) : Option (Batch R × W) :=
  match mode with
  | .concurrent => concurrently poll cancelled fuel (tasks.map .waiting) world
  | .sequential => sequentially poll cancelled fuel tasks world

end Polling

end QueryEngine
