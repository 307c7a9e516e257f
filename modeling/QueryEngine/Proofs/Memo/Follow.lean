import QueryEngine.Proofs.Memo.Batch

/-!
# Tasks that follow courses

A task interacts with others at a memo only if it follows a course (`Follows`): whatever the memo
holds, and whatever else there is of the world that nobody looks at, its polls do what the course
says, and leave the rest of the world as it is. The computations of its lookups have no side
effects (`Computation.Settles`). A batch of such tasks drains as the batch of their courses does, so
both modes have the same results (`exists_drain_follows`).
-/

namespace QueryEngine

variable {W B E V R T : Type}

/-- The worlds have one core and one memo: they differ in nothing that anybody looks at. -/
def Memo.Place.Same (place : Memo.Place W V) (core : W → B) (world world' : W) : Prop :=
  core world' = core world ∧ place.get world' = place.get world

/-- The memo is a part of the world besides its core. -/
structure Memo.Place.Beside (place : Memo.Place W V) (core : W → B) : Prop where
  get_set : ∀ memo world, place.get (place.set memo world) = memo
  core_set : ∀ memo world, core (place.set memo world) = core world

/-- In worlds of one core the computation has no side effects and a certain outcome. -/
structure Computation.Settles (place : Memo.Place W V) (core : W → B) (b : B)
    (computation : Computation W E V) (outcome : Except E V) : Prop where
  start : ∀ world, core world = b → place.Same core world (computation.start world)
  resume : ∀ world, core world = b → place.Same core world (computation.resume world)
  finish : ∀ world, core world = b → (computation.finish world).1 = outcome
    ∧ place.Same core world (computation.finish world).2

/-- Goes on after a poll of a lookup: the task waits as the lookup does, or goes on with its
answer. -/
def Memo.resume (task : LookupPhase → T) (next : Except E V → W → Progress T R × W) :
    Progress LookupPhase (Except E V) × W → Progress T R × W
  | (.waiting phase, world) => (.waiting (task phase), world)
  | (.ready answer, world) => next answer world

/-- What is left of a poll, and the polls that come after it, do what a course says in worlds of one
core, whatever the memo holds. -/
inductive Runs (poll : T → W → Progress T R × W) (place : Memo.Place W V) (core : W → B) (b : B) :
    Course E V R → (W → Progress T R × W) → Prop
  | ready {result : R} {run : W → Progress T R × W}
    (h : ∀ world, core world = b →
      (run world).1 = .ready result ∧ place.Same core world (run world).2) :
    Runs poll place core b (.ready result) run
  | pause {rest : Course E V R} {run : W → Progress T R × W} {task : T}
    (h : ∀ world, core world = b →
      (run world).1 = .waiting task ∧ place.Same core world (run world).2)
    (hr : Runs poll place core b rest (poll task)) :
    Runs poll place core b (.pause rest) run
  | lookup {key : String} {outcome : Except E V} {rest : Except E V → Course E V R}
    {run : W → Progress T R × W} {computation : Computation W E V} {task : LookupPhase → T}
    {next : Except E V → W → Progress T R × W}
    (hc : computation.Settles place core b outcome)
    (hrun : ∀ world, core world = b →
      run world = Memo.resume task next (Memo.poll place key computation .fresh world))
    (hpoll : ∀ phase, phase ≠ .fresh → ∀ world, core world = b →
      poll (task phase) world
        = Memo.resume task next (Memo.poll place key computation phase world))
    (hnext : ∀ answer, Runs poll place core b (rest answer) (next answer)) :
    Runs poll place core b (.lookup key computation.polls outcome rest) run

/-- The polls of a task do what a course says. -/
def Follows (poll : T → W → Progress T R × W) (place : Memo.Place W V) (core : W → B) (b : B)
    (task : T) (course : Course E V R) : Prop :=
  Runs poll place core b course (poll task)

/-- A task that may be under way follows a stage of a course. -/
inductive Tracks (poll : T → W → Progress T R × W) (place : Memo.Place W V) (core : W → B) (b : B) :
    T → Stage E V R → Prop
  | fresh {task : T} {course : Course E V R} (h : Follows poll place core b task course) :
    Tracks poll place core b task { course }
  | looking {phase : LookupPhase} (hp : phase ≠ .fresh) {key : String} {outcome : Except E V}
    {rest : Except E V → Course E V R} {computation : Computation W E V} {task : LookupPhase → T}
    {next : Except E V → W → Progress T R × W}
    (hc : computation.Settles place core b outcome)
    (hpoll : ∀ phase, phase ≠ .fresh → ∀ world, core world = b →
      poll (task phase) world
        = Memo.resume task next (Memo.poll place key computation phase world))
    (hnext : ∀ answer, Runs poll place core b (rest answer) (next answer)) :
    Tracks poll place core b (task phase)
      ⟨.lookup key computation.polls outcome rest, phase⟩

/-- The world has a core, and a memo. -/
def Memo.Place.Holds (place : Memo.Place W V) (core : W → B) (b : B) (world : W) (memo : Memo V) :
    Prop :=
  core world = b ∧ place.get world = memo

/-- What comes of a poll is the same, and its world has the core and the memo of the model. -/
def Memo.Place.Mirrors {P : Type} (place : Memo.Place W V) (core : W → B) (b : B) (polled : P × W)
    (model : P × Memo V) : Prop :=
  polled.1 = model.1 ∧ place.Holds core b polled.2 model.2

section
variable {poll : T → W → Progress T R × W} {place : Memo.Place W V} {core : W → B} {b : B}
  {world : W} {memo : Memo V}

/-- A world that is the same as one with a core and a memo has these, too. -/
theorem Memo.Place.Same.holds {world' : W} (h : place.Same core world world')
    (hw : place.Holds core b world memo) : place.Holds core b world' memo :=
  ⟨h.1.trans hw.1, h.2.trans hw.2⟩

/-- Setting the memo sets it, and leaves the core. -/
theorem Memo.Place.Beside.holds_set (hp : place.Beside core) (hw : core world = b) :
    place.Holds core b (place.set memo world) memo :=
  ⟨(hp.core_set memo world).trans hw, hp.get_set memo world⟩

/-! ## Lookups -/

section
variable (hp : place.Beside core) {key : String} {computation : Computation W E V}
  {outcome : Except E V} (hc : computation.Settles place core b outcome)
include hp hc

/-- A computation without side effects ends as one in a memo alone does. -/
theorem mirrors_finish (hw : place.Holds core b world memo) :
    place.Mirrors core b (Memo.finish place key computation world)
      (Memo.finish Memo.whole key (.settled computation.polls outcome) memo) := by
  obtain ⟨hr, hs⟩ := hc.finish world hw.1
  have hafter := hs.holds hw
  unfold Memo.finish
  generalize computation.finish world = finished at hr hafter
  obtain ⟨result, after⟩ := finished
  obtain rfl : result = outcome := hr
  have hget : place.get after = memo := hafter.2
  cases result with
  | ok value => exact ⟨rfl, by rw [← hget]; exact hp.holds_set hafter.1⟩
  | error error => exact ⟨rfl, by rw [← hget]; exact hp.holds_set hafter.1⟩

/-- It starts as that one does. -/
theorem mirrors_start (hw : place.Holds core b world memo) :
    place.Mirrors core b (Memo.start place key computation world)
      (Memo.start Memo.whole key (.settled computation.polls outcome) memo) := by
  have hafter := (hc.start world hw.1).holds hw
  show place.Mirrors core b
    (if computation.polls = 0 then Memo.finish place key computation (computation.start world)
      else (.waiting (.computing computation.polls), computation.start world))
    (if computation.polls = 0
      then Memo.finish Memo.whole key (.settled computation.polls outcome) memo
      else (.waiting (.computing computation.polls), memo))
  split
  · exact mirrors_finish hp hc hafter
  · exact ⟨rfl, hafter⟩

/-- So a lookup does on its turn what it does in a memo alone. -/
theorem mirrors_take (turn : MemoTurn V) (ticket : Nat) (hw : place.Holds core b world memo) :
    place.Mirrors core b (Memo.take place key computation turn ticket world)
      (Memo.take Memo.whole key (.settled computation.polls outcome) turn ticket memo) := by
  cases turn with
  | answer value => exact ⟨rfl, hw⟩
  | compute => exact mirrors_start hp hc hw
  | wait => exact ⟨rfl, hw⟩

/-- A lookup without side effects is polled as one in a memo alone. -/
theorem mirrors_poll (key : String) (phase : LookupPhase) (hw : place.Holds core b world memo) :
    place.Mirrors core b (Memo.poll place key computation phase world)
      (Memo.poll Memo.whole key (.settled computation.polls outcome) phase memo) := by
  have hget := hw.2
  subst hget
  cases phase with
  | fresh => exact mirrors_take hp hc _ _ (hp.holds_set hw.1)
  | waiting ticket => exact mirrors_take hp hc _ _ hw
  | computing n =>
    have hafter := (hc.resume world hw.1).holds hw
    show place.Mirrors core b
      (if n ≤ 1 then Memo.finish place key computation (computation.resume world)
        else (.waiting (.computing (n - 1)), computation.resume world))
      (if n ≤ 1
        then Memo.finish Memo.whole key (.settled computation.polls outcome) (place.get world)
        else (.waiting (.computing (n - 1)), place.get world))
    split
    · exact mirrors_finish hp hc hafter
    · exact ⟨rfl, hafter⟩

end

/-- A lookup that waits has entered. -/
theorem phase_ne_of_poll {key : String} {computation : Computation W E V}
    {phase phase' : LookupPhase}
    (h : (Memo.poll place key computation phase world).1 = .waiting phase') : phase' ≠ .fresh := by
  have hfinish : ∀ {world : W}, (Memo.finish place key computation world).1 ≠ .waiting phase' := by
    intro world hf
    unfold Memo.finish at hf
    split at hf <;> cases hf
  have hstart : ∀ {world : W}, (Memo.start place key computation world).1 = .waiting phase' →
      phase' ≠ .fresh := by
    intro world hs
    unfold Memo.start at hs
    dsimp only at hs
    split at hs
    · exact absurd hs hfinish
    · cases hs
      exact LookupPhase.noConfusion
  have htake : ∀ {turn : MemoTurn V} {ticket : Nat} {world : W},
      (Memo.take place key computation turn ticket world).1 = .waiting phase' →
        phase' ≠ .fresh := by
    intro turn ticket world ht
    cases turn with
    | answer value => cases ht
    | compute => exact hstart ht
    | wait =>
      cases ht
      exact LookupPhase.noConfusion
  cases phase with
  | fresh => exact htake h
  | waiting ticket => exact htake h
  | computing n =>
    unfold Memo.poll at h
    dsimp only at h
    split at h
    · exact absurd h hfinish
    · cases h
      exact LookupPhase.noConfusion

/-! ## Tasks -/

/-- A poll of a task in a lookup does what polling its course does, if what comes after the lookup
does. -/
theorem tracks_lookup (hp : place.Beside core) {key : String} {outcome : Except E V}
    {rest : Except E V → Course E V R} {computation : Computation W E V} {task : LookupPhase → T}
    {next : Except E V → W → Progress T R × W}
    (hc : computation.Settles place core b outcome)
    (hpoll : ∀ phase, phase ≠ .fresh → ∀ world, core world = b →
      poll (task phase) world
        = Memo.resume task next (Memo.poll place key computation phase world))
    (hnext : ∀ answer, Runs poll place core b (rest answer) (next answer))
    (hafter : ∀ answer {world : W} {memo : Memo V}, place.Holds core b world memo →
      Progress.Tracks (Tracks poll place core b) (next answer world).1
          ((rest answer).poll .fresh memo).1
        ∧ place.Holds core b (next answer world).2 ((rest answer).poll .fresh memo).2)
    (phase : LookupPhase) (hw : place.Holds core b world memo) :
    let polled := Memo.resume task next (Memo.poll place key computation phase world)
    let model := (Course.lookup key computation.polls outcome rest).poll phase memo
    Progress.Tracks (Tracks poll place core b) polled.1 model.1
      ∧ place.Holds core b polled.2 model.2 := by
  obtain ⟨hr, hw'⟩ := mirrors_poll hp hc key phase hw
  have hfresh : ∀ phase', (Memo.poll place key computation phase world).1 = .waiting phase' →
      phase' ≠ .fresh := fun _ => phase_ne_of_poll
  rw [Course.poll]
  generalize Memo.poll place key computation phase world = polled at hr hw' hfresh ⊢
  generalize Memo.poll Memo.whole key (.settled computation.polls outcome) phase memo = model
    at hr hw' ⊢
  obtain ⟨progress, world'⟩ := polled
  obtain ⟨progress', memo'⟩ := model
  obtain rfl : progress = progress' := hr
  cases progress with
  | waiting phase' => exact ⟨.waiting (.looking (hfresh phase' rfl) hc hpoll hnext), hw'⟩
  | ready answer => exact hafter answer hw'

/-- A poll that runs as a course says does what polling the course does. -/
theorem Runs.tracks (hp : place.Beside core) {course : Course E V R}
    {run : W → Progress T R × W} (h : Runs poll place core b course run)
    (hw : place.Holds core b world memo) :
    Progress.Tracks (Tracks poll place core b) (run world).1 (course.poll .fresh memo).1
      ∧ place.Holds core b (run world).2 (course.poll .fresh memo).2 := by
  induction h generalizing world memo with
  | @ready result run h =>
    obtain ⟨hr, hs⟩ := h world hw.1
    rw [hr]
    exact ⟨.ready result, hs.holds hw⟩
  | @pause rest run task h hr _ =>
    obtain ⟨hwait, hs⟩ := h world hw.1
    rw [hwait]
    exact ⟨.waiting (.fresh hr), hs.holds hw⟩
  | lookup hc hrun hpoll hnext ih =>
    rw [hrun world hw.1]
    exact tracks_lookup hp hc hpoll hnext (fun answer {_ _} => ih answer) .fresh hw

/-- A poll of a task does what polling the stage does that it follows. -/
theorem Tracks.polled (hp : place.Beside core) {task : T} {stage : Stage E V R}
    (h : Tracks poll place core b task stage) (hw : place.Holds core b world memo) :
    Progress.Tracks (Tracks poll place core b) (poll task world).1 (stage.poll memo).1
      ∧ place.Holds core b (poll task world).2 (stage.poll memo).2 := by
  cases h with
  | fresh h => exact h.tracks hp hw
  | looking hphase hc hpoll hnext =>
    rw [hpoll _ hphase world hw.1]
    exact tracks_lookup hp hc hpoll hnext (fun answer {_ _} => (hnext answer).tracks hp) _ hw

/-- Tasks that interact only through lookups of a memo have the same results in either mode, and
leave an idle memo with the same values and the rest of the world as it is. -/
theorem exists_drain_follows (hp : place.Beside core) {uses : String → KeyUse E V}
    {tasks : List T} {courses : List (Course E V R)}
    (hf : List.Forall₂ (Follows poll place core b) tasks courses)
    {cancelled : W → Bool} (hc : ∀ world, core world = b → cancelled world = false)
    (mode : DrainMode) (hw : core world = b) (hi : (place.get world).Idle)
    (hs : SharesKeys uses (place.get world).get? courses) :
    let served := serveAll (courses.map fun course => .waiting { course }) (place.get world).get?
    ∃ fuel world', Polling.drain poll cancelled mode fuel tasks world
        = some (.completed served.results, world')
      ∧ core world' = b ∧ (place.get world').Idle ∧ (place.get world').get? = served.values := by
  intro served
  obtain ⟨fuel, memo, hd, hidle, hv⟩ := exists_drain hi hs mode
  have htracks : List.Forall₂ (Tracks poll place core b) tasks
      (courses.map fun course => { course }) := by
    rw [List.forall₂_map_right_iff]
    exact hf.imp fun _ _ h => .fresh h
  obtain ⟨world', hd', hcore, hmemo⟩ := Polling.drain_tracks
    (fun _ _ _ _ ht hw => ht.polled hp hw) (fun world _ hw => hc world hw.1) htracks ⟨hw, rfl⟩ hd
  rw [List.map_map] at hd' hv
  subst hmemo
  exact ⟨fuel, world', hd', hcore, hidle, hv⟩

end

end QueryEngine
