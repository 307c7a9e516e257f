import QueryEngine.Field.Descriptor
import QueryEngine.Proofs.Connection.Recorded

/-!
# Fields in recorded worlds

Everything but the operations of connections notes nothing: polls, getters and resolvers are lifted
to recorded worlds, where they do what they did. A resolver of its own gets the connection without
the notes, so all that is noted is what the engine itself makes of the declared operations. However
often an action asks for the page of its connection, one pipeline at most is noted
(`Action.runWith_recorded`).
-/

namespace QueryEngine

variable {W O C T R α β : Type}

/-! ## Polls -/

namespace Polling

variable {poll : T → W → Progress T R × W} {cancelled : W → Bool} {noted : List (Call O)}

/-- Advancing a task notes nothing. -/
theorem advance_lift (progress : Progress T R) (world : W) :
    advance (fun task => Recorded.lift (poll task)) progress (world, noted)
      = ((advance poll progress world).1, (advance poll progress world).2, noted) := by
  cases progress <;> rfl

/-- A round notes nothing. -/
theorem round_lift (batch : List (Progress T R)) (world : W) :
    round (fun task => Recorded.lift (poll task)) batch (world, noted)
      = ((round poll batch world).1, (round poll batch world).2, noted) := by
  induction batch generalizing world with
  | nil => rfl
  | cons progress rest ih => simp only [round, advance_lift, ih]

/-- Rounds until all tasks are ready note nothing. -/
theorem concurrently_lift (fuel : Nat) (batch : List (Progress T R)) (world : W) :
    concurrently (fun task => Recorded.lift (poll task)) (fun world => cancelled world.1) fuel
        batch (world, noted)
      = (concurrently poll cancelled fuel batch world).map fun (answer, after) =>
        (answer, after, noted) := by
  induction fuel generalizing batch world with
  | zero => rfl
  | succ fuel ih =>
    simp only [concurrently, round_lift]
    split
    · rfl
    · split
      · rfl
      · exact ih ..

/-- Forcing a task notes nothing. -/
theorem force_lift (fuel : Nat) (task : T) (world : W) :
    force (fun task => Recorded.lift (poll task)) (fun world => cancelled world.1) fuel task
        (world, noted)
      = (force poll cancelled fuel task world).map fun (answer, after) =>
        (answer, after, noted) := by
  induction fuel generalizing task world with
  | zero => rfl
  | succ fuel ih =>
    simp only [force, Recorded.lift]
    rcases poll task world with ⟨task' | result, after⟩
    · simp only
      split
      · rfl
      · exact ih ..
    · rfl

/-- Forcing tasks one after the other notes nothing. -/
theorem sequentially_lift (fuel : Nat) (tasks : List T) (world : W) :
    sequentially (fun task => Recorded.lift (poll task)) (fun world => cancelled world.1) fuel
        tasks (world, noted)
      = (sequentially poll cancelled fuel tasks world).map fun (answer, after) =>
        (answer, after, noted) := by
  induction tasks generalizing world with
  | nil => rfl
  | cons task rest ih =>
    simp only [sequentially, force_lift]
    rcases force poll cancelled fuel task world with _ | ⟨_ | result, after⟩
    · rfl
    · rfl
    · simp only [Option.map_some, ih]
      rcases sequentially poll cancelled fuel rest after with _ | ⟨_ | results, last⟩ <;> rfl

/-- Draining notes nothing. -/
theorem drain_lift (mode : DrainMode) (fuel : Nat) (tasks : List T) (world : W) :
    drain (fun task => Recorded.lift (poll task)) (fun world => cancelled world.1) mode fuel tasks
        (world, noted)
      = (drain poll cancelled mode fuel tasks world).map fun (answer, after) =>
        (answer, after, noted) := by
  cases mode with
  | concurrent => exact concurrently_lift ..
  | sequential => exact sequentially_lift ..

end Polling

/-! ## Actions -/

/-- The steps in recorded worlds. -/
def Step.recorded : Step W O α → List (Call O) → Step (Recorded W O) O α
  | .done result world, noted => .done result (world, noted)
  | .page world next, noted =>
    .page (world, noted) fun page world => (next page world.1).recorded world.2

/-- The action in recorded worlds. -/
def Action.recorded (action : Action W O α) : Action (Recorded W O) O α :=
  fun world => (action world.1).recorded world.2

/-- What is done after an action is recorded as what is done after it. -/
theorem Action.recorded_bind (action : Action W O α) (next : α → Action W O β) :
    (action >>= next).recorded = action.recorded >>= fun result => (next result).recorded := by
  have hstep : ∀ (step : Step W O α) (noted : List (Call O)),
      (step.bind next).recorded noted
        = (step.recorded noted).bind fun result => (next result).recorded := by
    intro step
    induction step with
    | done result world => exact fun _ => rfl
    | page world resume ih =>
      intro noted
      simp only [Step.bind, Step.recorded]
      congr 1
      funext page world
      exact ih page world.1 world.2
  funext world
  exact hstep (action world.1) world.2

/-- What has become of the page of a connection: it was not asked for, or one pipeline has made
it. -/
def Connection.Ran (host : Host W O C T) (connection : Connection W O C) (calls : List (Call O))
    (known : Option (Page O)) : Prop :=
  (known = none ∧ calls = []) ∨ ∃ result,
    Pipeline connection.arguments connection.operations.zipIdx
        (Page.whole (connection.backing.elements host)) calls result
      ∧ known = some (result.map (Page.cap connection.maxPageSize))

section
variable {host : Host W O C T} {connection : Connection W O C} {calls : List (Call O)}
  {known : Option (Page O)}

/-- What is applied is a declared operation whose argument is there and not null. -/
theorem Connection.Ran.called (h : connection.Ran host calls known) :
    ∀ call ∈ calls, ∃ operation, connection.operations[call.index]? = some operation
      ∧ connection.arguments.lookup operation.argument = some call.value
      ∧ call.value ≠ .null := by
  rcases h with ⟨-, rfl⟩ | ⟨result, hp, -⟩
  · simp
  · intro call hc
    obtain ⟨operation, hm, harg⟩ := hp.called call hc
    exact ⟨operation, List.mk_mem_zipIdx_iff_getElem?.1 hm, harg⟩

/-- No operation is applied twice, and the order is that of the declaration. -/
theorem Connection.Ran.ordered (h : connection.Ran host calls known) :
    (calls.map Call.index).Sublist (List.range connection.operations.length) := by
  rcases h with ⟨-, rfl⟩ | ⟨result, hp, -⟩
  · exact List.nil_sublist _
  · have hindices := hp.ordered
    rwa [List.zipIdx_map_snd, ← List.range_eq_range'] at hindices

/-- Each operation is applied to what the one before it made, the first one to all members of the
collection. -/
theorem Connection.Ran.chained (h : connection.Ran host calls known) :
    (∀ call ∈ calls.head?, call.items = Page.whole (connection.backing.elements host))
      ∧ calls.IsChain fun first second => first.outcome = .ok second.items := by
  rcases h with ⟨-, rfl⟩ | ⟨result, hp, -⟩
  · simp
  · exact hp.chained

end

/-- However often the page is asked for, one pipeline at most is noted. -/
theorem Step.runWith_recorded (host : Host W O C T) {connection : Connection W O C}
    (step : Step W O α) {calls : List (Call O)} {known : Option (Page O)}
    (h : connection.Ran host calls known) (noted : List (Call O)) :
    ∃ calls',
      (step.recorded (noted ++ calls)).runWith (connection.recorded.paginate host.recorded) known
        = ((step.runWith (connection.paginate host) known).1,
          (step.runWith (connection.paginate host) known).2.1,
          (step.runWith (connection.paginate host) known).2.2, noted ++ calls')
      ∧ connection.Ran host calls' (step.runWith (connection.paginate host) known).2.1 := by
  induction step generalizing calls known with
  | done result world => exact ⟨calls, rfl, h⟩
  | page world next ih =>
    cases known with
    | some answer => exact ih answer world h
    | none =>
      obtain rfl : calls = [] := by
        rcases h with ⟨-, rfl⟩ | ⟨result, -, he⟩
        · rfl
        · cases he
      obtain ⟨calls, result, he, hp, hcap⟩ := connection.paginate_recorded host world noted
      have hran : connection.Ran host calls (some (connection.paginate host world).1) :=
        .inr ⟨result, hp, congrArg some hcap⟩
      simp only [Step.recorded, Step.runWith, List.append_nil, he]
      exact ih _ _ hran

/-- An action that may ask for the page of a connection does the same in recorded worlds. What it
notes is what becomes of the page on the way. -/
theorem Action.runWith_recorded (host : Host W O C T) {connection : Connection W O C}
    (action : Action W O α) {calls : List (Call O)} {known : Option (Page O)}
    (h : connection.Ran host calls known) (world : W) (noted : List (Call O)) :
    ∃ calls',
      action.recorded.runWith (connection.recorded.paginate host.recorded) known
          (world, noted ++ calls)
        = ((action.runWith (connection.paginate host) known world).1,
          (action.runWith (connection.paginate host) known world).2.1,
          (action.runWith (connection.paginate host) known world).2.2, noted ++ calls')
      ∧ connection.Ran host calls' (action.runWith (connection.paginate host) known world).2.1 :=
  (action world).runWith_recorded host h noted

/-- Where there is no connection nothing is noted. -/
theorem Action.run_recorded (action : Action W O α) (world : W) (noted : List (Call O)) :
    action.recorded.run (world, noted) = ((action.run world).1, (action.run world).2, noted) := by
  have hstep : ∀ (step : Step W O α) (known : Option (Page O)) (noted : List (Call O)),
      (step.recorded noted).runWith (fun world => (.ok [], world)) known
        = ((step.runWith (fun world => (.ok [], world)) known).1,
          (step.runWith (fun world => (.ok [], world)) known).2.1,
          (step.runWith (fun world => (.ok [], world)) known).2.2, noted) := by
    intro step
    induction step with
    | done result world => exact fun _ _ => rfl
    | page world next ih =>
      intro known noted
      cases known with
      | some answer => exact ih answer world (some answer) noted
      | none => exact ih (.ok []) world (some (.ok [])) noted
  simp only [Action.run, Action.runWith, Action.recorded, hstep]

/-! ## Descriptors -/

/-- The cell in recorded worlds. -/
def TypeBinding.recorded : TypeBinding W → TypeBinding (Recorded W O)
  | .unbound => .unbound
  | .bound type => .bound type
  | .deferred thunk => .deferred (Recorded.lift thunk)

/-- The cost in recorded worlds. -/
def Cost.recorded : Cost W → Cost (Recorded W O)
  | .constant cost => .constant cost
  | .function f => .function fun world => f world.1

/-- The strategy in recorded worlds. A resolver of its own gets the object without the notes. -/
def Strategy.recorded : Strategy W O C T → Strategy (Recorded W O) O C T
  | .standard lookupKey method => .standard lookupKey method
  | .custom resolver => .custom fun source arguments => (resolver source.forget arguments).recorded

/-- The resolver in recorded worlds. -/
def LazyResolver.recorded (resolver : LazyResolver W T) : LazyResolver (Recorded W O) T :=
  fun marker arguments => Recorded.lift (resolver marker arguments)

/-- The descriptor in recorded worlds, whose operations note their applications. -/
def Descriptor.recorded (descriptor : Descriptor W O C T) : Descriptor (Recorded W O) O C T where
  name := descriptor.name
  returnType := descriptor.returnType.recorded
  strategy := descriptor.strategy.recorded
  lazyResolver := descriptor.lazyResolver.map LazyResolver.recorded
  cost := descriptor.cost.recorded
  arguments := descriptor.arguments
  connection := descriptor.connection.map PageOperation.recordedAll

section
variable (host : Host W O C T)

/-- Objects have the same types in recorded worlds. -/
theorem Host.objectType_recorded (object : Object O) :
    host.recorded.objectType object = host.objectType object := by
  cases object <;> rfl

/-- Sources have the same types in recorded worlds. -/
theorem Source.typeName_recorded (source : Source W O C) :
    source.recorded.typeName host.recorded = source.typeName host := by
  cases source with
  | object o => exact host.objectType_recorded o
  | connection c => rfl

/-- A source is indexed in the same way in recorded worlds. -/
theorem Source.lookup_recorded (key : String) (source : Source W O C) :
    source.recorded.lookup host.recorded key = (source.lookup host key).recorded := by
  cases source with
  | object o => cases o <;> rfl
  | connection c => rfl

/-- A collection has the same capabilities in recorded worlds, and these note nothing. -/
theorem Backing.capability_recorded (backing : Backing C) (method : String)
    (arguments : Fields) :
    (fun world : Recorded W O => backing.capability host.recorded method arguments world)
      = Recorded.lift (backing.capability host method arguments) := by
  cases backing <;> rfl

/-- What a connection answers itself it answers in the same way in recorded worlds. -/
theorem Connection.call_recorded (connection : Connection W O C) (method : String)
    (arguments : Fields) :
    connection.recorded.call host.recorded method arguments
      = (connection.call host method arguments).recorded := by
  simp only [Connection.call]
  split_ifs
  · rfl
  · rfl
  · rfl
  · rfl
  · exact congrArg Action.ofWorld
      (connection.backing.capability_recorded host method arguments)

/-- A source is called in the same way in recorded worlds. -/
theorem Source.call_recorded (method : String) (arguments : Fields) (source : Source W O C) :
    source.recorded.call host.recorded method arguments
      = (source.call host method arguments).recorded := by
  cases source with
  | object o => cases o <;> rfl
  | connection c => exact c.call_recorded host method arguments

mutual

/-- Values look the same. -/
theorem Host.inspect_recorded (value : FieldValue O C T) :
    host.recorded.inspect value = host.inspect value := by
  cases value with
  | object object => rw [inspect, inspect, host.objectType_recorded]
  | list items => rw [inspect, inspect, inspectAll_recorded items]
  | value json => rw [inspect, inspect]
  | collection collection => rw [inspect, inspect, recorded]
  | lazy task => rw [inspect, inspect]
  | deferred marker => rw [inspect, inspect]

/-- Lists of values are shown in the same way in recorded worlds. -/
theorem Host.inspectAll_recorded (items : List (FieldValue O C T)) :
    host.recorded.inspectAll items = host.inspectAll items := by
  cases items with
  | nil => rw [inspectAll, inspectAll]
  | cons item rest => rw [inspectAll, inspectAll, inspect_recorded item, inspectAll_recorded rest]

end

/-- Resolving a field in recorded worlds is to resolve the field. -/
theorem Descriptor.resolve_recorded (descriptor : Descriptor W O C T) (source : Source W O C)
    (arguments : Fields) :
    descriptor.recorded.resolve host.recorded source.recorded arguments
      = (descriptor.resolve host source arguments).recorded := by
  obtain ⟨name, returnType, strategy, lazyResolver, cost, declared, connection⟩ := descriptor
  cases strategy with
  | custom resolver =>
    have hforget : source.recorded.forget = source := source.forget_recorded
    simp only [Descriptor.resolve, Descriptor.recorded, Strategy.recorded, hforget]
  | standard lookupKey method =>
    cases lookupKey with
    | some key =>
      simp only [Descriptor.resolve, Descriptor.recorded, Strategy.recorded,
        Source.lookup_recorded, Action.recorded_bind]
      rfl
    | none =>
      simp only [Descriptor.resolve, Descriptor.recorded, Strategy.recorded]
      cases method.or name with
      | none => rfl
      | some method =>
        simp only [Source.call_recorded, Action.recorded_bind, Source.typeName_recorded]
        rfl

end

end QueryEngine
