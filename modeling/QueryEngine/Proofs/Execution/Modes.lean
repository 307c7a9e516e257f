import QueryEngine.Proofs.Execution.Course
import QueryEngine.Proofs.Execution.Steps
import QueryEngine.Proofs.Execution.Twins
import QueryEngine.Proofs.Memo.Follow

/-!
# Both modes of draining agree

Tasks that meet only at a memo (`Interacts`) have the same outcomes whether a batch is polled round
after round or task after task (`exists_drain_follows`), if it does not matter when each of them
comes to its lookups (`SharesThroughout`). The worlds afterwards differ in what nobody looks at.
Resolving cannot tell such worlds apart (`BlindTo`), and neither can the next tasks, so in both
modes an execution passes through states that differ in nothing else (`Interacts.exists_next`) and
comes to the same response (`execute_modes_agree`). Where a task looks a key up after others have
had their turn, the mode may decide whose computation runs (`execute_modes_agree_not`).
-/

namespace QueryEngine.Execution

variable {W O C T V B E : Type}

/-- Worlds that cannot be told apart: they have the same core, and nobody is at their memos, which
hold the same values. -/
structure Replica (place : Memo.Place W V) (core : W → B) (v w : W) : Prop where
  core_eq : core w = core v
  idle_left : (place.get v).Idle
  idle_right : (place.get w).Idle
  values : (place.get w).get? = (place.get v).get?

/-- The first of two replicas is a replica of itself. -/
theorem Replica.left {place : Memo.Place W V} {core : W → B} {v w : W}
    (h : Replica place core v w) : Replica place core v v :=
  ⟨rfl, h.idle_left, h.idle_left, rfl⟩

/-- The states between the drain steps of an execution that drains concurrently. -/
abbrev Between (setting : Setting W O C T) (tree : SelectionTree (Definition W O C T)) (root : O)
    (world : W) : Nat → State W O C T → Prop :=
  AfterSteps (setting.draining .concurrent none) tree.root.height (.initial root tree world)

/-- The tasks of an execution interact only through lookups in a memo. The core of a world is what
tasks and resolvers look at besides the memo. In worlds of one core a task follows the course that
is planned for it. -/
structure Interacts (setting : Setting W O C T) (place : Memo.Place W V) (core : W → B)
    (plan : B → T → Course E V (Outcome O C T)) (tree : SelectionTree (Definition W O C T))
    (root : O) (world : W) : Prop where
  beside : place.Beside core
  /-- No lookup is under way before the execution. -/
  idle : (place.get world).Idle
  /-- Resolvers see at most the core, and the values of the memo. -/
  blind : BlindTo (Replica place core) setting tree.root
  /-- The execution is not cancelled. -/
  uncancelled : ∀ {steps : Nat} {state : State W O C T},
    Between setting tree root world steps state →
      ∀ w, core w = core state.world → setting.host.cancelled w = false
  /-- Every task is ready after finitely many polls, and meets others at its lookups only. -/
  tasks : ∀ {steps : Nat} {state : State W O C T}, Between setting tree root world steps state →
    ∀ pending ∈ state.pending,
      Follows setting.host.poll place core (core state.world) pending.task
        (plan (core state.world) pending.task)

/-- The courses of the tasks that wait. -/
def courses (core : W → B) (plan : B → T → Course E V (Outcome O C T)) (state : State W O C T) :
    List (Course E V (Outcome O C T)) :=
  state.pending.map fun pending => plan (core state.world) pending.task

/-- In no batch of the execution does it matter when each task comes to its lookups. With their
first polls tasks may look up any key, with computations that come to anything. A key that tasks
look up later has a value before the batch, or is looked up by one task alone, or its computations
agree. -/
def SharesThroughout (setting : Setting W O C T) (place : Memo.Place W V) (core : W → B)
    (plan : B → T → Course E V (Outcome O C T)) (tree : SelectionTree (Definition W O C T))
    (root : O) (world : W) : Prop :=
  ∀ {steps : Nat} {state : State W O C T}, Between setting tree root world steps state →
    ∃ uses : String → KeyUse E V,
      SharesKeys uses (place.get state.world).get? (courses core plan state)

section
variable {setting : Setting W O C T} {place : Memo.Place W V} {core : W → B}
  {plan : B → T → Course E V (Outcome O C T)} {tree : SelectionTree (Definition W O C T)} {root : O}
  {world : W} (h : Interacts setting place core plan tree root world)
  (hk : SharesThroughout setting place core plan tree root world)
include h hk

/-- In either mode, and from states that are alike, a drain step has the same outcomes and leaves
worlds that cannot be told apart. -/
theorem Interacts.exists_drain {steps : Nat} {state : State W O C T}
    (hs : Between setting tree root world steps state) :
    ∃ outcomes values, ∀ (mode : DrainMode) (limit : Option Nat) {t : State W O C T},
      Twins (Replica place core) tree.root state t → ∃ fuel drained,
        drain (setting.draining mode limit) fuel t = some (.completed outcomes, drained)
          ∧ core drained = core state.world ∧ (place.get drained).Idle
          ∧ (place.get drained).get? = values := by
  obtain ⟨uses, hkeys⟩ := hk hs
  have hf : List.Forall₂ (Follows setting.host.poll place core (core state.world))
      (state.pending.map Pending.task) (courses core plan state) := by
    rw [courses, List.forall₂_map_left_iff, List.forall₂_map_right_iff]
    exact List.forall₂_same.2 (h.tasks hs)
  let batch : List (Progress (Stage E V (Outcome O C T)) (Outcome O C T)) :=
    (courses core plan state).map fun course => .waiting { course }
  let served := serveAll batch (place.get state.world).get?
  refine ⟨served.results, served.values, ?_⟩
  intro mode limit t ht
  have hlike := ht.like
  rw [← hlike.values] at hkeys
  have hdrain := exists_drain_follows h.beside hf (h.uncancelled hs) mode hlike.core_eq
    hlike.idle_right hkeys
  rw [hlike.values] at hdrain
  rw [← ht.eq]
  exact hdrain

/-- In either mode, and from states that are alike, a drain step leads to states that are alike. -/
theorem Interacts.exists_next {steps : Nat} {state : State W O C T}
    (hs : Between setting tree root world steps state)
    (hi : Twins (Replica place core) tree.root state state) (hp : state.pending ≠ []) :
    ∃ outcomes next, Between setting tree root world (steps + 1) next
      ∧ ∀ (mode : DrainMode) (limit : Option Nat) {t : State W O C T},
        Twins (Replica place core) tree.root state t → ∃ fuel drained,
          drain (setting.draining mode limit) fuel t = some (.completed outcomes, drained)
            ∧ Twins (Replica place core) tree.root next
              (resolveQueued setting tree.root.height (applyAll setting t.pending outcomes
                { t with world := drained, pending := [] })) := by
  obtain ⟨outcomes, values, hdrains⟩ := h.exists_drain hk hs
  obtain ⟨fuel₀, drained₀, hd₀, hcore₀, hidle₀, hvalues₀⟩ := hdrains .concurrent none hi
  have hnext := hs.step hp (h.uncancelled hs state.world rfl) hd₀
  rw [resolveQueued_draining, applyAll_draining] at hnext
  refine ⟨outcomes, _, hnext, ?_⟩
  intro mode limit t ht
  obtain ⟨fuel, drained, hd, hcore, hidle, hvalues⟩ := hdrains mode limit ht
  have hreplica : Replica place core drained₀ drained :=
    ⟨hcore.trans hcore₀.symm, hidle₀, hidle, hvalues.trans hvalues₀.symm⟩
  have hpending : t.pending = state.pending := by rw [← ht.eq]
  refine ⟨fuel, drained, hd, ?_⟩
  rw [hpending]
  have hdrained := ht.cleared.withWorld hreplica
  exact (hdrained.applyAll h.blind hi.pending outcomes).resolveQueued h.blind _

end

section
variable {setting : Setting W O C T}

/-- Where nothing is cancelled, only the limit stops a run. -/
theorem stop?_draining {mode mode' : DrainMode} {limit : Option Nat} {steps : Nat}
    {world world' : W} (hc : setting.host.cancelled world = false)
    (hc' : setting.host.cancelled world' = false) :
    stop? (setting.draining mode limit) steps world
      = stop? (setting.draining mode' limit) steps world' := by
  simp only [stop?, Setting.draining_host, hc, hc']
  rfl

variable {place : Memo.Place W V} {core : W → B} {plan : B → T → Course E V (Outcome O C T)}
  {tree : SelectionTree (Definition W O C T)} {root : O} {world : W}
  (h : Interacts setting place core plan tree root world)
  (hk : SharesThroughout setting place core plan tree root world)
include h hk

/-- A run has a run in any mode from a state that is alike once all is resolved, and the two end in
the same way. -/
theorem Interacts.exists_run {mode : DrainMode} (mode' : DrainMode) {limit : Option Nat}
    {fuel steps : Nat} {state s t last : State W O C T} {error : Option ExecutionError}
    (hstate : Between setting tree root world steps state)
    (hs : Twins (Replica place core) tree.root state (resolveQueued setting tree.root.height s))
    (ht : Twins (Replica place core) tree.root state (resolveQueued setting tree.root.height t))
    (hr : run (setting.draining mode limit) tree.root.height fuel steps s = some (error, last)) :
    ∃ more last' reached,
      run (setting.draining mode' limit) tree.root.height more steps t = some (error, last')
        ∧ Twins (Replica place core) tree.root reached last
        ∧ Twins (Replica place core) tree.root reached last' := by
  induction fuel generalizing steps state s t with
  | zero => cases hr
  | succ fuel ih =>
    have hpending : (resolveQueued setting tree.root.height s).pending = state.pending := by
      rw [← hs.eq]
    have hpending' : (resolveQueued setting tree.root.height t).pending = state.pending := by
      rw [← ht.eq]
    have hstop : stop? (setting.draining mode limit) steps _
        = stop? (setting.draining mode' limit) steps _ :=
      stop?_draining (h.uncancelled hstate _ hs.like.core_eq)
        (h.uncancelled hstate _ ht.like.core_eq)
    simp only [run, resolveQueued_draining, hpending, hstop] at hr
    split at hr
    · rename_i hp
      cases hr
      refine ⟨1, _, state, ?_, hs, ht⟩
      simp only [run, resolveQueued_draining, hpending', hp, if_true]
    rename_i hp
    split at hr
    · rename_i hstopped
      cases hr
      refine ⟨1, _, state, ?_, hs, ht⟩
      simp only [run, resolveQueued_draining, hpending', hp, Bool.false_eq_true, if_false,
        hstopped]
    rename_i hstopped
    obtain ⟨outcomes, next, hnext, hdrains⟩ :=
      h.exists_next hk hstate (hs.left hs.like.left) (by simpa using hp)
    obtain ⟨fuel₁, drained₁, hd₁, hn₁⟩ := hdrains mode limit hs
    obtain ⟨fuel₂, drained₂, hd₂, hn₂⟩ := hdrains mode' limit ht
    split at hr
    · cases hr
    · rename_i hd
      cases drain_unique hd hd₁
    · rename_i hd
      cases drain_unique hd hd₁
      rw [applyAll_draining, ← hpending] at hr
      obtain ⟨more, last', reached, hm, hlast⟩ := ih hnext hn₁ hn₂ hr
      refine ⟨max more fuel₂ + 1, last', reached, ?_, hlast⟩
      have hd₂' := drain_mono hd₂ (Nat.le_trans (Nat.le_max_right more fuel₂) (Nat.le_succ _))
      simp only [run, resolveQueued_draining, applyAll_draining, hpending', hp, Bool.false_eq_true,
        if_false, hstopped, hd₂']
      rw [← hpending']
      exact run_mono hm (Nat.le_max_left more fuel₂)

/-- An execution in one mode has one in every other mode, with the same response. -/
theorem Interacts.exists_execute {mode : DrainMode} (mode' : DrainMode) {limit : Option Nat}
    {fuel : Nat} {answer : Response} {after : W}
    (hx : execute (setting.draining mode limit) tree root fuel world = some (answer, after)) :
    ∃ more after', execute (setting.draining mode' limit) tree root more world
        = some (answer, after')
      ∧ core after' = core after ∧ (place.get after').get? = (place.get after).get? := by
  simp only [execute, Option.map_eq_some_iff, Prod.mk.injEq, Prod.exists] at hx
  obtain ⟨error, last, hr, rfl, rfl⟩ := hx
  have hstart : Between setting tree root world 0 _ := .start
  rw [resolveQueued_draining] at hstart
  have hinitial : Twins (Replica place core) tree.root (.initial root tree world)
      (.initial root tree world) := by
    refine ⟨?_, ?_, rfl, rfl, h.idle, h.idle, rfl⟩
    · intro frame hf
      rw [List.mem_singleton.1 hf]
      exact ⟨.root, trivial⟩
    · intro pending hp
      cases hp
  have hresolved := hinitial.resolveQueued h.blind tree.root.height
  obtain ⟨more, last', reached, hm, hl, hl'⟩ := h.exists_run hk mode' hstart hresolved hresolved hr
  refine ⟨more, last'.world, ?_, ?_, ?_⟩
  · rw [execute, hm, Option.map_some, ← hl.eq, ← hl'.eq]
    rfl
  · exact hl'.like.core_eq.trans hl.like.core_eq.symm
  · exact hl'.like.values.trans hl.like.values.symm

end

/-- Both modes of draining agree. If the tasks of an execution interact only through lookups in a
memo, with computations that have no side effects, if each is ready after finitely many polls, and
if it does not matter when each of them comes to its lookups, then the execution has a response in
concurrent mode just if it has it in sequential mode, and leaves the same values in the memo and the
same core of the world. -/
theorem execute_modes_agree {setting : Setting W O C T} {place : Memo.Place W V} {core : W → B}
    {plan : B → T → Course E V (Outcome O C T)} {tree : SelectionTree (Definition W O C T)}
    {root : O} {world : W} (h : Interacts setting place core plan tree root world)
    (hk : SharesThroughout setting place core plan tree root world) (limit : Option Nat)
    (answer : Response) (b : B) (values : String → Option V) :
    (∃ fuel after,
        execute (setting.draining .concurrent limit) tree root fuel world = some (answer, after)
          ∧ core after = b ∧ (place.get after).get? = values)
      ↔ ∃ fuel after,
        execute (setting.draining .sequential limit) tree root fuel world = some (answer, after)
          ∧ core after = b ∧ (place.get after).get? = values := by
  constructor
  · rintro ⟨fuel, after, hx, rfl, rfl⟩
    exact h.exists_execute hk .sequential hx
  · rintro ⟨fuel, after, hx, rfl, rfl⟩
    exact h.exists_execute hk .concurrent hx

/-! ## A host with a memo -/

/-- A task of a host that has nothing but a memo: it looks the only key up, or is pending once
before it goes on, or is ready. -/
inductive MemoTask where
  | look (polls : Nat) (outcome : Except FieldError Json) (phase : LookupPhase)
  | later (task : MemoTask)
  | done (result : Json)

namespace MemoTask

/-- A poll of the task. -/
def poll (task : MemoTask) (memo : Memo Json) :
    Progress MemoTask (Outcome Unit Unit MemoTask) × Memo Json :=
  match task with
  | .look polls outcome phase =>
    Memo.resume (MemoTask.look polls outcome)
      (fun answer memo => (.ready (answer.map .value), memo))
      (Memo.poll Memo.whole "key" (.settled polls outcome) phase memo)
  | .later task => (.waiting task, memo)
  | .done result => (.ready (.ok (.value result)), memo)

/-- The course of a task. -/
def course : MemoTask → Course FieldError Json (Outcome Unit Unit MemoTask)
  | .look polls outcome _ => .lookup "key" polls outcome fun answer => .ready (answer.map .value)
  | .later task => .pause task.course
  | .done result => .ready (.ok (.value result))

/-- The lookup of the task is not under way. -/
def Fresh : MemoTask → Prop
  | .look _ _ phase => phase = .fresh
  | .later task => task.Fresh
  | .done _ => True

/-- A task whose lookup is not under way follows its course. -/
theorem Fresh.follows {task : MemoTask} (h : task.Fresh) :
    Follows MemoTask.poll Memo.whole (fun _ => ()) () task task.course := by
  induction task with
  | look polls outcome phase =>
    obtain rfl : phase = .fresh := h
    have hsettles : (Computation.settled polls outcome).Settles Memo.whole (fun _ => ()) ()
        outcome :=
      ⟨fun _ _ => ⟨rfl, rfl⟩, fun _ _ => ⟨rfl, rfl⟩, fun _ _ => ⟨rfl, rfl, rfl⟩⟩
    have hpoll : ∀ (phase : LookupPhase) (memo : Memo Json),
        MemoTask.poll (.look polls outcome phase) memo
          = Memo.resume (MemoTask.look polls outcome)
            (fun answer memo => (.ready (answer.map .value), memo))
            (Memo.poll Memo.whole "key" (.settled polls outcome) phase memo) :=
      fun _ _ => rfl
    exact .lookup hsettles (fun memo _ => hpoll .fresh memo)
      (fun phase _ memo _ => hpoll phase memo) fun answer => .ready fun _ _ => ⟨rfl, rfl, rfl⟩
  | later task ih => exact .pause (fun _ _ => ⟨rfl, rfl, rfl⟩) (ih h)
  | done result => exact .ready fun _ _ => ⟨rfl, rfl, rfl⟩

end MemoTask

/-- The resolver answers with tasks. -/
def memoField (tasks : List MemoTask) : Node (Definition (Memo Json) Unit Unit MemoTask) :=
  { Node.ofField ⟨0, none, "names", [], [], "Query", .list (.named "String")⟩ false with
    definitions :=
      [⟨.default "Query" "names",
        { strategy := .custom fun _ _ => pure (.ok (.list (tasks.map .lazy))) }⟩] }

/-- The selection of that field. -/
def memoTree (tasks : List MemoTask) : SelectionTree (Definition (Memo Json) Unit Unit MemoTask) :=
  ⟨.query, { Node.root "Query" with buckets := [⟨"Query", [memoField tasks]⟩] }⟩

/-- A setting whose host has nothing but the memo. -/
def memoSetting : Setting (Memo Json) Unit Unit MemoTask :=
  let bare : Setting (Memo Json) Unit Unit MemoTask := bareSetting fun _ => .ready (.ok .null)
  { bare with host := { bare.host with poll := MemoTask.poll } }

/-- The state in which the tasks wait. -/
def memoState (tasks : List MemoTask) : State (Memo Json) Unit Unit MemoTask :=
  resolveQueued memoSetting (memoTree tasks).root.height (.initial () (memoTree tasks) {})

/-- If no task is left after a drain step, there is no other. -/
theorem between_memoTree {tasks : List MemoTask} {fuel : Nat}
    {outcomes : List (Outcome Unit Unit MemoTask)} {memo : Memo Json}
    (hd : drain (memoSetting.draining .concurrent none) fuel (memoState tasks)
      = some (.completed outcomes, memo))
    (hn : (resolveQueued memoSetting (memoTree tasks).root.height
      (applyAll memoSetting (memoState tasks).pending outcomes
        { memoState tasks with world := memo, pending := [] })).pending = [])
    {steps : Nat} {state : State (Memo Json) Unit Unit MemoTask}
    (h : Between memoSetting (memoTree tasks) () {} steps state) :
    state = memoState tasks ∨ state.pending = [] := by
  induction h with
  | start => exact .inl (resolveQueued_draining ..)
  | step h hp hc hdrain ih =>
    rcases ih with rfl | hnone
    · cases drain_unique hdrain hd
      rw [resolveQueued_draining, applyAll_draining]
      exact .inr hn
    · exact absurd hnone hp

/-- Only the memo tells its worlds apart, and the engine does not look at it. -/
theorem memoTree_blindTo (like : Memo Json → Memo Json → Prop) (tasks : List MemoTask) :
    BlindTo like memoSetting (memoTree tasks).root where
  host :=
    ⟨fun _ _ _ _ hl => ⟨rfl, hl⟩, fun _ _ _ _ _ hl => ⟨rfl, hl⟩, fun _ _ _ _ _ hl => ⟨rfl, hl⟩⟩
  descriptors node hw definition hd := by
    have hnode : node = (memoTree tasks).root ∨ node = memoField tasks := by
      clear hd
      induction hw with
      | root => exact .inl rfl
      | child _ hc ih =>
        obtain ⟨bucket, hb, hc⟩ := hc
        rcases ih with rfl | rfl
        · rw [List.mem_singleton.1 hb] at hc
          exact .inr (List.mem_singleton.1 hc)
        · cases hb
    rcases hnode with rfl | rfl
    · cases hd
    · rw [List.mem_singleton.1 hd]
      refine ⟨?_, ?_, ?_⟩
      · intro resolver hr source _ arguments
        cases hr
        exact Action.blind_pure _
      · intro resolver hr
        cases hr
      · intro operations ho
        cases ho
  deferred type resolver hr := by cases hr

/-- Tasks that wait at most once interact only through the memo. -/
theorem interacts_memoTree {tasks : List MemoTask} (hf : ∀ task ∈ tasks, task.Fresh)
    (hp : (memoState tasks).pending.map Pending.task = tasks)
    (hb : ∀ {steps : Nat} {state : State (Memo Json) Unit Unit MemoTask},
      Between memoSetting (memoTree tasks) () {} steps state →
        state = memoState tasks ∨ state.pending = []) :
    Interacts memoSetting Memo.whole (fun _ => ()) (fun _ => MemoTask.course) (memoTree tasks) ()
      {} where
  beside := ⟨fun _ _ => rfl, fun _ _ => rfl⟩
  idle _ := .idle
  blind := memoTree_blindTo _ tasks
  uncancelled _ _ _ := rfl
  tasks h pending hm := by
    rcases hb h with rfl | hn
    · exact (hf _ (hp ▸ List.mem_map_of_mem hm)).follows
    · rw [hn] at hm
      cases hm

/-- Four tasks. Three of them look the key up with their first polls, the first one in vain. -/
def promptTasks : List MemoTask :=
  [.look 1 (.error (.new "no")) .fresh, .look 1 (.ok (.string "x")) .fresh,
    .look 0 (.ok (.string "y")) .fresh, .later (.done (.string "z"))]

/-- After the first drain step of the four tasks nothing waits. -/
theorem between_promptTasks {steps : Nat} {state : State (Memo Json) Unit Unit MemoTask}
    (h : Between memoSetting (memoTree promptTasks) () {} steps state) :
    state = memoState promptTasks ∨ state.pending = [] := by
  have hdrain : drain (memoSetting.draining .concurrent none) 4 (memoState promptTasks)
      = some (.completed
          [.error (.new "no"), .ok (.value (.string "x")), .ok (.value (.string "x")),
            .ok (.value (.string "z"))], _) :=
    rfl
  exact between_memoTree hdrain rfl h

/-- The four tasks follow their courses, whatever has become of the memo. -/
theorem interacts_promptTasks : Interacts memoSetting Memo.whole (fun _ => ())
    (fun _ => MemoTask.course) (memoTree promptTasks) () {} := by
  refine interacts_memoTree ?_ rfl between_promptTasks
  simp [promptTasks, MemoTask.Fresh]

/-- All tasks that look the key up do so with their first polls. -/
theorem sharesThroughout_promptTasks : SharesThroughout memoSetting Memo.whole (fun _ => ())
    (fun _ => MemoTask.course) (memoTree promptTasks) () {} := by
  intro steps state h
  refine ⟨fun _ => .first, ?_⟩
  rcases between_promptTasks h with rfl | hn
  · have hcourses : courses (fun _ => ()) (fun _ => MemoTask.course) (memoState promptTasks)
        = promptTasks.map MemoTask.course := rfl
    rw [hcourses]
    refine ⟨?_, List.pairwise_of_forall fun _ _ _ hu => (nomatch hu), nofun⟩
    simp [promptTasks, MemoTask.course, Course.Regular, Course.Late, KeyUse.Admits]
  · rw [courses, hn]
    exact ⟨nofun, .nil, nofun⟩

/-- The second task computes what the first one could not, and the third one gets that. -/
theorem execute_modes_agree_promptTasks :
    Interacts memoSetting Memo.whole (fun _ => ()) (fun _ => MemoTask.course)
        (memoTree promptTasks) () {}
      ∧ SharesThroughout memoSetting Memo.whole (fun _ => ()) (fun _ => MemoTask.course)
        (memoTree promptTasks) () {}
      ∧ ∃ answer : Response,
        (∃ fuel after,
            execute (memoSetting.draining .concurrent none) (memoTree promptTasks) () fuel {}
              = some (answer, after))
          ∧ (∃ fuel after,
            execute (memoSetting.draining .sequential none) (memoTree promptTasks) () fuel {}
              = some (answer, after))
          ∧ answer.data = some (.object
            [("names", .array [.null, .string "x", .string "x", .string "z"])])
          ∧ answer.errors.map ResponseError.path = [some [.key "names", .index 0]] := by
  have hx : execute (memoSetting.draining .concurrent none) (memoTree promptTasks) () 4 {}
      = some (_, _) := rfl
  obtain ⟨fuel, after, hx', -, -⟩ := (execute_modes_agree interacts_promptTasks
    sharesThroughout_promptTasks none _ _ _).1 ⟨4, _, hx, rfl, rfl⟩
  exact ⟨interacts_promptTasks, sharesThroughout_promptTasks, _, ⟨4, _, hx⟩, ⟨fuel, after, hx'⟩,
    rfl, rfl⟩

/-- Two tasks that look the key up with different values. The first one is pending before. -/
def lateTasks : List MemoTask :=
  [.later (.look 0 (.ok (.string "a")) .fresh), .look 0 (.ok (.string "b")) .fresh]

/-- In concurrent mode the second task comes to the key first, in sequential mode the first one. -/
theorem execute_modes_agree_not :
    Interacts memoSetting Memo.whole (fun _ => ()) (fun _ => MemoTask.course)
        (memoTree lateTasks) () {}
      ∧ (∃ answer after,
        execute (memoSetting.draining .concurrent none) (memoTree lateTasks) () 4 {}
            = some (answer, after)
          ∧ answer.data = some (.object [("names", .array [.string "b", .string "b"])])
          ∧ answer.errors = [])
      ∧ ∃ answer after,
        execute (memoSetting.draining .sequential none) (memoTree lateTasks) () 4 {}
            = some (answer, after)
          ∧ answer.data = some (.object [("names", .array [.string "a", .string "a"])])
          ∧ answer.errors = [] := by
  have hdrain : drain (memoSetting.draining .concurrent none) 4 (memoState lateTasks)
      = some (.completed [.ok (.value (.string "b")), .ok (.value (.string "b"))], _) := rfl
  refine ⟨interacts_memoTree ?_ rfl (between_memoTree hdrain rfl), ⟨_, _, rfl, rfl, rfl⟩,
    _, _, rfl, rfl, rfl⟩
  simp [lateTasks, MemoTask.Fresh]

end QueryEngine.Execution
