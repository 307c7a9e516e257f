import QueryEngine.Proofs.Memo.Desks
import QueryEngine.Proofs.Polling

/-!
# Histories of lookups

What happens to numbered lookups at a memo, with notes of it. A scene is a world with the phases of
the lookups and the notes so far; a poll of a lookup is `Memo.poll` with a computation that notes
what it does (`Scene.poll`), and the notes change nothing else (`Scene.inWorld_poll`). In a history
(`History`) the lookups are polled in any order, alone or by the tasks of batches that are drained,
also while another lookup computes; lookups are dropped, one or all; and the rest of the world does
as it likes.
-/

namespace QueryEngine

/-! ## Scenes -/

/-- The phase of a lookup after all that have not ended were dropped, if it was not polled yet. -/
def LookupPhase.release : LookupPhase → Option LookupPhase
  | .fresh => some .fresh
  | .waiting _ | .computing _ => none

namespace Memo

variable {W E V : Type}

/-- Forgets one lookup, because nobody polls it any more. -/
def leave (memo : Memo V) (key : String) (phase : LookupPhase) : Memo V :=
  match phase with
  | .fresh => memo
  | .waiting ticket =>
    let cell := memo.cell key
    if cell.holder? = some ticket then memo.fail key
    else memo.setCell key { cell with waiting := cell.waiting.erase ticket }
  | .computing _ => memo.fail key

/-- A world with numbered lookups: their phases, if they have not ended, and what was noted of
them. -/
structure Scene (W E V : Type) where
  world : W
  phase? : Nat → Option LookupPhase := fun _ => some .fresh
  notes : List (Note E V) := []

namespace Scene

variable (place : Place W V) (key : String) (lookup : Nat)

/-- The memo of a scene is that of its world. -/
def memoPlace : Place (Scene W E V) V where
  get scene := place.get scene.world
  set memo scene := { scene with world := place.set memo scene.world }

/-- The computation of a lookup starts. -/
def begin (polls : Nat) (scene : Scene W E V) : Scene W E V :=
  { scene with
    phase? := Function.update scene.phase? lookup (some (.computing polls))
    notes := scene.notes ++ [.started lookup] }

/-- Something is noted. -/
def note (note : Note E V) (scene : Scene W E V) : Scene W E V :=
  { scene with notes := scene.notes ++ [note] }

/-- A computation whose start and outcome are noted. -/
def noting (computation : Computation (Scene W E V) E V) : Computation (Scene W E V) E V where
  polls := computation.polls
  start scene := computation.start (scene.begin lookup computation.polls)
  resume := computation.resume
  finish scene :=
    let (outcome, scene) := computation.finish scene
    (outcome, scene.note (.computed lookup outcome))

/-- The scene after a lookup was polled. -/
def record (polled : Progress LookupPhase (Except E V) × Scene W E V) : Scene W E V :=
  match polled with
  | (.waiting phase, scene) =>
    { scene with phase? := Function.update scene.phase? lookup (some phase) }
  | (.ready result, scene) =>
    { scene with
      phase? := Function.update scene.phase? lookup none
      notes := scene.notes ++ [.answered lookup result] }

/-- Polls a lookup. -/
def poll (computation : Computation (Scene W E V) E V) (phase : LookupPhase)
    (scene : Scene W E V) : Progress LookupPhase (Except E V) × Scene W E V :=
  let polled := Memo.poll (memoPlace place) key (noting lookup computation) phase scene
  (polled.1, record lookup polled)

/-- Drops a lookup. -/
def drop (phase : LookupPhase) (scene : Scene W E V) : Scene W E V where
  world := place.set ((place.get scene.world).leave key phase) scene.world
  phase? := Function.update scene.phase? lookup none
  notes := scene.notes ++ [.dropped lookup]

/-- Drops all lookups that have not ended. -/
def release (scene : Scene W E V) : Scene W E V where
  world := place.set (place.get scene.world).release scene.world
  phase? lookup := (scene.phase? lookup).bind LookupPhase.release
  notes := scene.notes ++ [.released]

/-- A computation that does not know of lookups. -/
def lift (computation : Computation W E V) : Computation (Scene W E V) E V where
  polls := computation.polls
  start scene := { scene with world := computation.start scene.world }
  resume scene := { scene with world := computation.resume scene.world }
  finish scene :=
    let (outcome, world) := computation.finish scene.world
    (outcome, { scene with world })

section
variable (computation : Computation W E V) (scene : Scene W E V)

/-- What a poll comes to, and the world after it. -/
def inWorld {P : Type} (polled : P × Scene W E V) : P × W :=
  (polled.1, polled.2.world)

/-- In the world a noted computation ends as the computation itself does. -/
theorem inWorld_finish :
    inWorld (Memo.finish (memoPlace place) key (noting lookup (lift computation)) scene)
      = Memo.finish place key computation scene.world := by
  rcases hf : computation.finish scene.world with ⟨outcome, world⟩
  have hnoting : (noting lookup (lift computation)).finish scene
      = (outcome, note (.computed lookup outcome) { scene with world }) := by
    simp [noting, lift, hf]
  unfold Memo.finish
  rw [hnoting, hf]
  cases outcome <;> rfl

/-- In the world it starts so. -/
theorem inWorld_start :
    inWorld (Memo.start (memoPlace place) key (noting lookup (lift computation)) scene)
      = Memo.start place key computation scene.world := by
  unfold Memo.start
  show inWorld (if computation.polls = 0 then _ else _) = if computation.polls = 0 then _ else _
  split
  · exact inWorld_finish place key lookup computation _
  · rfl

/-- So in the world a noted lookup does on its turn what the lookup itself does. -/
theorem inWorld_take (turn : MemoTurn V) (ticket : Nat) :
    inWorld (Memo.take (memoPlace place) key (noting lookup (lift computation)) turn ticket scene)
      = Memo.take place key computation turn ticket scene.world := by
  cases turn with
  | answer value => rfl
  | compute => exact inWorld_start place key lookup computation scene
  | wait => rfl

/-- The phases and the notes have no part in what a poll comes to. -/
theorem inWorld_poll (phase : LookupPhase) :
    inWorld (scene.poll place key lookup (lift computation) phase)
      = Memo.poll place key computation phase scene.world := by
  have hrecord : ∀ polled : Progress LookupPhase (Except E V) × Scene W E V,
      inWorld (polled.1, record lookup polled) = inWorld polled := by
    rintro ⟨_ | _, _⟩ <;> rfl
  rw [poll, hrecord]
  cases phase with
  | fresh => exact inWorld_take place key lookup computation _ _ _
  | waiting ticket => exact inWorld_take place key lookup computation _ _ _
  | computing polls =>
    unfold Memo.poll
    dsimp only
    split
    · exact inWorld_finish place key lookup computation _
    · rfl

end

end Scene

/-- What may happen with lookups from one scene to another; `keys` are the keys of the lookups. The
lookups that are busy are being polled meanwhile. -/
inductive History (place : Place W V) (keys : Nat → String) :
    List Nat → Scene W E V → Scene W E V → Prop
  | refl (busy : List Nat) (scene : Scene W E V) : History place keys busy scene scene
  | trans {busy : List Nat} {a b c : Scene W E V} (h : History place keys busy a b)
    (h' : History place keys busy b c) : History place keys busy a c
  /-- The world changes, and the memo does not. -/
  | elsewhere {busy : List Nat} {scene : Scene W E V} {world : W}
    (hw : place.get world = place.get scene.world) :
    History place keys busy scene { scene with world }
  /-- A lookup is polled; while it computes other lookups may be polled. -/
  | poll {busy : List Nat} {scene : Scene W E V} {lookup : Nat} {phase : LookupPhase}
    {computation : Computation (Scene W E V) E V} (hb : lookup ∉ busy)
    (hp : scene.phase? lookup = some phase)
    (hs : ∀ scene, History place keys (lookup :: busy) scene (computation.start scene))
    (hr : ∀ scene, History place keys (lookup :: busy) scene (computation.resume scene))
    (hf : ∀ scene, History place keys (lookup :: busy) scene (computation.finish scene).2) :
    History place keys busy scene
      (scene.poll place (keys lookup) lookup computation phase).2
  /-- A batch of tasks is drained that poll lookups. -/
  | drain {T R : Type} {busy : List Nat} {scene scene' : Scene W E V}
    {poll : T → Scene W E V → Progress T R × Scene W E V} {cancelled : Scene W E V → Bool}
    {mode : DrainMode} {fuel : Nat} {tasks : List T} {batch : Batch R}
    (hp : ∀ task scene, History place keys busy scene (poll task scene).2)
    (hd : Polling.drain poll cancelled mode fuel tasks scene = some (batch, scene')) :
    History place keys busy scene scene'
  | drop {busy : List Nat} {scene : Scene W E V} {lookup : Nat} {phase : LookupPhase}
    (hb : lookup ∉ busy) (hp : scene.phase? lookup = some phase) :
    History place keys busy scene (scene.drop place (keys lookup) lookup phase)
  | release {scene : Scene W E V} : History place keys [] scene (scene.release place)

/-! ## Batches of lookups -/

/-- A computation that leaves the memo to lookups. -/
structure Quiet (place : Place W V) (computation : Computation W E V) : Prop where
  start : ∀ world, place.get (computation.start world) = place.get world
  resume : ∀ world, place.get (computation.resume world) = place.get world
  finish : ∀ world, place.get (computation.finish world).2 = place.get world

/-- Polls a task that is one lookup. -/
def Scene.pollTask (place : Place W V) (keys : Nat → String)
    (computation : Nat → Computation W E V) (lookup : Nat) (scene : Scene W E V) :
    Progress Nat (Except E V) × Scene W E V :=
  match scene.phase? lookup with
  | none => (.waiting lookup, scene)
  | some phase =>
    match scene.poll place (keys lookup) lookup (lift (computation lookup)) phase with
    | (.waiting _, scene) => (.waiting lookup, scene)
    | (.ready result, scene) => (.ready result, scene)

/-- Batches of lookups, drained in either mode, make a history. -/
theorem history_drain {place : Place W V} (keys : Nat → String)
    {computation : Nat → Computation W E V} (hq : ∀ lookup, Quiet place (computation lookup))
    {cancelled : Scene W E V → Bool} {mode : DrainMode} {fuel : Nat} {lookups : List Nat}
    {scene scene' : Scene W E V} {batch : Batch (Except E V)}
    (hd : Polling.drain (Scene.pollTask place keys computation) cancelled mode fuel lookups scene
      = some (batch, scene')) : History place keys [] scene scene' := by
  refine .drain (fun lookup scene => ?_) hd
  unfold Scene.pollTask
  split
  · exact .refl _ scene
  · rename_i phase hphase
    have hpoll : History place keys [] scene
        (scene.poll place (keys lookup) lookup (Scene.lift (computation lookup)) phase).2 :=
      .poll List.not_mem_nil hphase (fun scene => .elsewhere ((hq lookup).start _))
        (fun scene => .elsewhere ((hq lookup).resume _))
        fun scene => .elsewhere ((hq lookup).finish _)
    split
    · rename_i hp
      rwa [hp] at hpoll
    · rename_i hp
      rwa [hp] at hpoll

end Memo

end QueryEngine
