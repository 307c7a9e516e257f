import QueryEngine.Proofs.Execution.Growth
import QueryEngine.Proofs.Execution.Nulls

/-!
# Connections that became null

A connection collapses when one of its fields ends in an error and either the connection does not
support the field or its page cannot be had (`Collapse`). Its slot is null from then on: no further
field of it is resolved, nothing below it comes to life again, whatever still waits there is done
without effect, and its one error stays the last that belongs to it (`StaysNull`). That is so at
all later moments of every execution, and in its response (`execute_staysNull`).
-/

namespace QueryEngine.Execution

open Moment

variable {W O C T : Type}

/-! ## Which field fails a connection -/

namespace Piece

/-- The page, if it is known, and the world after fields none of which fails the object. -/
def passed (setting : Setting W O C T) (frame : Frame W O C T) :
    List (Node (Definition W O C T)) → Option (Page O) → W → Option (Option (Page O) × W)
  | [], known, world => some (known, world)
  | child :: rest, known, world =>
    match fieldPart setting frame child known world with
    | (.error _, _, _) => none
    | (.ok _, known, world) => passed setting frame rest known world

/-- The field ends in an error, and either the connection does not support the field or its page
cannot be had. -/
def Breaks (setting : Setting W O C T) (frame : Frame W O C T) (connection : Connection W O C)
    (child : Node (Definition W O C T)) (known : Option (Page O)) (world : W)
    (error : FieldError) : Prop :=
  child.isTypename = false ∧ ∃ definition, child.definition? = some definition
    ∧ ∃ known' world',
      resolveField setting frame definition.descriptor
          (definition.descriptor.coerceArguments child.arguments setting.vars) known world
        = (.error error, known', world')
      ∧ (error.isMissingCapability ∨ ∃ cause,
        (Action.page.runWith (connection.paginate setting.host) known' world').1 = .error cause)

section
variable {setting : Setting W O C T} {frame : Frame W O C T} {connection : Connection W O C}
  {child : Node (Definition W O C T)} {known known' : Option (Page O)} {world world' : W}
  {error : FieldError} {before : List (Node (Definition W O C T))}

/-- An error fails a connection exactly if it says that something is not supported, or if the page
cannot be had. -/
theorem fst_failsFrame_iff (setting : Setting W O C T) (hs : frame.source = .connection connection)
    (error : FieldError) (known : Option (Page O)) (world : W) :
    (failsFrame setting frame error known world).1 = true
      ↔ error.isMissingCapability ∨ ∃ cause,
        (Action.page.runWith (connection.paginate setting.host) known world).1
          = .error cause := by
  simp only [failsFrame, hs]
  cases error.isMissingCapability with
  | true => simp
  | false =>
    rcases Action.page.runWith (connection.paginate setting.host) known world
      with ⟨_ | items, known', world'⟩ <;> simp

/-- A field fails its connection exactly if it breaks it. -/
theorem fst_fieldPart_eq_error_iff (hs : frame.source = .connection connection) :
    (fieldPart setting frame child known world).1 = .error error
      ↔ Breaks setting frame connection child known world error := by
  simp only [fieldPart, Breaks]
  cases child.isTypename with
  | true => simp
  | false =>
    cases child.definition? with
    | none => simp
    | some definition =>
      simp only [Bool.false_eq_true, if_false, Option.some.injEq, exists_eq_left', true_and]
      rcases resolveField setting frame definition.descriptor
        (definition.descriptor.coerceArguments child.arguments setting.vars) known world
        with ⟨cause | value, known', world'⟩
      · have hiff := fst_failsFrame_iff setting hs cause known' world'
        rcases hf : failsFrame setting frame cause known' world' with ⟨_ | _, known'', world''⟩
        · rw [hf] at hiff
          simp only [hf]
          constructor
          · intro h
            cases h
          · rintro ⟨_, _, he, hb⟩
            cases he
            cases hiff.2 hb
        · rw [hf] at hiff
          simp only [hf]
          constructor
          · rintro ⟨⟩
            exact ⟨known', world', rfl, hiff.1 rfl⟩
          · rintro ⟨_, _, he, -⟩
            cases he
            rfl
      · simp

/-- Fields none of which fails the object, with one that does, decide whether it fails. -/
theorem failure_fieldParts
    (hpassed : passed setting frame before known world = some (known', world'))
    (hchild : (fieldPart setting frame child known' world').1 = .error error)
    (after : List (Node (Definition W O C T))) :
    (fieldParts setting frame (before ++ child :: after) known world).2.1 = some error := by
  induction before generalizing known world with
  | nil =>
    cases hpassed
    simp only [List.nil_append, fieldParts]
    rcases hf : fieldPart setting frame child known' world' with ⟨_ | piece, rest⟩
    · rw [hf] at hchild
      cases hchild
      rfl
    · rw [hf] at hchild
      cases hchild
  | cons first before ih =>
    simp only [passed] at hpassed
    simp only [List.cons_append, fieldParts]
    rcases hf : fieldPart setting frame first known world with ⟨_ | piece, known'', world''⟩
    · simp [hf] at hpassed
    · rw [hf] at hpassed
      exact ih hpassed

/-- An object that fails has a first field that fails it. -/
theorem exists_passed_of_failure {children : List (Node (Definition W O C T))}
    (h : (fieldParts setting frame children known world).2.1 = some error) :
    ∃ before child after known' world', children = before ++ child :: after
      ∧ passed setting frame before known world = some (known', world')
      ∧ (fieldPart setting frame child known' world').1 = .error error := by
  induction children generalizing known world with
  | nil => cases h
  | cons first others ih =>
    simp only [fieldParts] at h
    rcases hf : fieldPart setting frame first known world with ⟨_ | piece, known', world'⟩
    · rw [hf] at h
      cases h
      exact ⟨[], first, others, known, world, rfl, rfl, by rw [hf]⟩
    · rw [hf] at h
      obtain ⟨before, child, after, known'', world'', rfl, hp, hc⟩ := ih h
      exact ⟨first :: before, child, after, known'', world'', rfl, by simp [passed, hf, hp], hc⟩

/-- No field after one that fails the object matters. `done` are the parts of the fields that were
resolved before, and the others hold their nulls. -/
theorem resolveFields_eq_of_failure
    (hpassed : passed setting frame before known world = some (known', world'))
    (hchild : (fieldPart setting frame child known' world').1 = .error error)
    {start : State W O C T} (hp : (start.data.at? frame.path).isSome)
    (done : List (Segment × Piece W O C T)) {after : List (Node (Definition W O C T))}
    (ha : Container.object.Admits (done.map Prod.fst ++ fieldSteps (before ++ child :: after)))
    (others : List (Node (Definition W O C T))) :
    resolveFields setting frame (before ++ child :: others) known
        (start.graft frame.path
          (.gather .object (done ++ blanks (fieldSteps (before ++ child :: after))), world))
      = resolveFields setting frame (before ++ child :: after) known
        (start.graft frame.path
          (.gather .object (done ++ blanks (fieldSteps (before ++ child :: after))), world)) := by
  induction before generalizing known world done with
  | nil =>
    cases hpassed
    have hsteps : fieldSteps ([] ++ child :: after) = .key child.key :: fieldSteps after := rfl
    rw [hsteps] at ha ⊢
    have hblank := State.at?_graft_blank hp ha world'
    rw [List.nil_append, List.nil_append, resolveFields_cons setting frame child others _ hblank,
      resolveFields_cons setting frame child after _ hblank, State.graft_world]
    rcases hf : fieldPart setting frame child known' world' with ⟨_ | piece, rest⟩
    · rfl
    · rw [hf] at hchild
      cases hchild
  | cons first before ih =>
    have hsteps : fieldSteps (first :: before ++ child :: after)
        = .key first.key :: fieldSteps (before ++ child :: after) := rfl
    rw [hsteps] at ha ⊢
    have hblank := State.at?_graft_blank hp ha world
    rw [List.cons_append, List.cons_append, resolveFields_cons setting frame first _ _ hblank,
      resolveFields_cons setting frame first _ _ hblank, State.graft_world]
    simp only [passed] at hpassed
    rcases hf : fieldPart setting frame first known world with ⟨_ | piece, known'', world''⟩
    · rfl
    · rw [hf] at hpassed
      simp only [State.graft_gather_step hp ha]
      exact ih hpassed _ (by simpa using ha)

end

end Piece

/-! ## The moment of a collapse -/

/-- A connection is resolved now, and the fields `before` leave it as it is, but `child` breaks
it. -/
structure Collapse (setting : Setting W O C T) (m : Moment W O C T) (frame : Frame W O C T)
    (before : List (Node (Definition W O C T))) (child : Node (Definition W O C T))
    (after : List (Node (Definition W O C T))) (error : FieldError) : Prop where
  resolves : Resolves m frame
  included : Piece.included setting frame = before ++ child :: after
  breaks : ∃ connection, frame.source = .connection connection ∧ ∃ known world,
    Piece.passed setting frame before none m.state.world = some (known, world)
      ∧ Piece.Breaks setting frame connection child known world error

/-- What a collapse does: the slot holds null, with its error as the last one, and nothing else of
the data has changed. What follows the broken field is not resolved: the state would be the same
with any other fields in its place. -/
structure Collapsed (setting : Setting W O C T) (m next : Moment W O C T) (frame : Frame W O C T)
    (before : List (Node (Definition W O C T))) (child : Node (Definition W O C T))
    (error : FieldError) : Prop where
  data : next.state.data = m.state.data.fill frame.path .null
  elsewhere : ∀ slot, Path.Apart frame.path slot →
    next.state.data.at? slot = m.state.data.at? slot
  reported : next.state.errors.getLast?
    = some (.ofFieldError error frame.path FieldError.Code.fieldResolution)
  unresolved : ∀ others, resolveFields setting frame (before ++ child :: others) none
      ({ m.state with frontier := m.state.frontier.tail }.write frame.path
        (.object (placeholders [] ((Piece.included setting frame).map Node.key))))
    = next.state

/-- The task was forced, as part of the batch of a drain step. -/
def Forced (setting : Setting W O C T) (past : List (Moment W O C T))
    (pending : Pending W O C T) : Prop :=
  ∃ m ∈ past, pending ∈ m.state.pending ∧ ∃ fuel outcomes world,
    drain setting fuel m.state = some (.completed outcomes, world)
      ∧ m.drained outcomes world ∈ past

/-- What holds at a later moment of a slot that holds null since a connection collapsed, where
`next` is the moment after the collapse and `since` are the moments passed from then on. -/
structure StaysNull (setting : Setting W O C T) (next : Moment W O C T) (path : Path)
    (since : List (Moment W O C T)) (later : Moment W O C T) : Prop where
  null : later.state.data.at? path = some .null
  one_error : (later.state.errors.filter fun error => error.path = some path).length = 1
  /-- No error that was added since then lies in the slot. -/
  errors : ∃ added, later.state.errors = next.state.errors ++ added
    ∧ ∀ error ∈ added, ∀ slot, error.path = some slot → ¬ path <+: slot
  unresolved : ∀ frame, path <+: frame.path → ¬ Resolves later frame
  /-- Work in the slot changes nothing. -/
  idle : ∀ work rest, later.next? = some (work, rest) → path <+: work.path →
    work.run setting rest.state = rest.state
  /-- The tasks that waited then still do, or were forced. -/
  forced : ∀ pending ∈ next.state.pending,
    pending ∈ later.state.pending ∨ Forced setting (later :: since) pending

section
variable {setting : Setting W O C T} {root : Node (Definition W O C T)}
  {past : List (Moment W O C T)} {m next : Moment W O C T} {frame : Frame W O C T}
  {before after : List (Node (Definition W O C T))} {child : Node (Definition W O C T)}
  {error : FieldError}

/-- The error of a collapse is the one that the fields of the connection end with. -/
theorem Collapse.failure (h : Collapse setting m frame before child after error) :
    (Piece.fieldParts setting frame (Piece.included setting frame) none m.state.world).2.1
      = some error := by
  obtain ⟨connection, hs, known, world, hpassed, hbreaks⟩ := h.breaks
  rw [h.included]
  exact Piece.failure_fieldParts hpassed ((Piece.fst_fieldPart_eq_error_iff hs).2 hbreaks) after

/-- An object that fails has a field that breaks it. -/
theorem exists_collapse (h : Resolves m frame) (hf : Piece.fails setting frame m.state.world) :
    ∃ before child after error, Collapse setting m frame before child after error := by
  obtain ⟨connection, hs⟩ := Piece.connection_of_fails hf
  obtain ⟨error, he⟩ := Option.isSome_iff_exists.1 hf
  obtain ⟨before, child, after, known, world, hincluded, hpassed, hchild⟩ :=
    Piece.exists_passed_of_failure he
  exact ⟨before, child, after, error, h, hincluded, connection, hs, known, world, hpassed,
    (Piece.fst_fieldPart_eq_error_iff hs).1 hchild⟩

/-- The slot of an object that is resolved holds the empty object. -/
theorem Sound.at?_of_resolves (h : Sound setting root past m) (hr : Resolves m frame) :
    m.state.data.at? frame.path = some (.object []) := by
  obtain ⟨⟨rest, hn⟩, hs⟩ := hr
  rcases h.at?_next hn with hd | hd
  · have hd : m.state.data.at? frame.path = none := hd
    simp [hd] at hs
  · exact hd

/-- The slot of an object becomes null when the object is resolved exactly if it collapses. -/
theorem Sound.null_iff_collapse (h : Sound setting root past m) (hk : root.KeysDistinct)
    (hr : Resolves m frame) :
    (resolveFrame setting frame m.state).data.at? frame.path = some .null
      ↔ ∃ before child after error, Collapse setting m frame before child after error := by
  obtain ⟨rest, hn⟩ := hr.1
  have hkeys := h.keys_next hk hn frame rfl
  rw [resolveFrame_eq_graft setting frame hkeys (h.at?_of_resolves hr), State.graft_data,
    Json.at?_fill_self hr.2, Option.some_inj, Piece.value_ofFrame_eq_null_iff]
  refine ⟨exists_collapse hr, ?_⟩
  rintro ⟨before, child, after, error, hc⟩
  rw [Piece.fails, hc.failure, Option.isSome_some]

/-- To resolve an object grafts its piece. -/
theorem Sound.next_of_resolves (h : Sound setting root past m) (hk : root.KeysDistinct)
    (hm : Move setting m next) {rest : Moment W O C T}
    (hn : m.next? = some (.object frame, rest)) (hs : (m.state.data.at? frame.path).isSome) :
    next = rest.graft frame.path (Piece.ofFrame setting frame m.state.world) := by
  cases h.effect hk hm with
  | skip hn' hd =>
    rw [hn] at hn'
    cases hn'
    exact absurd ⟨⟨_, hn⟩, hs⟩ (not_resolves_of_none hn hd frame)
  | graft hn' hd =>
    rw [hn] at hn'
    cases hn'
    rfl
  | drain hn' => simp [hn] at hn'

/-- A connection that breaks collapses: its slot becomes null under one error, and no further field
of it is resolved. -/
theorem Sound.collapsed (h : Sound setting root past m) (hk : root.KeysDistinct)
    (hm : Move setting m next) (hc : Collapse setting m frame before child after error) :
    Collapsed setting m next frame before child error := by
  obtain ⟨rest, hn⟩ := hc.resolves.1
  have hkeys := h.keys_next hk hn frame rfl
  have hrest : { m.state with frontier := m.state.frontier.tail } = rest.state := by
    rcases next?_eq_some hn with ⟨_, _, hw, _⟩ | ⟨_, hw, _, _, hf, hstate⟩
    · cases hw
    · rw [hf, List.tail_cons, hstate]
  have hslot : (rest.state.data.at? frame.path).isSome := by
    rw [data_next hn]
    exact hc.resolves.2
  have hnext : next.state
      = rest.state.graft frame.path (Piece.ofFrame setting frame m.state.world) :=
    congrArg Moment.state (h.next_of_resolves hk hm hn hc.resolves.2)
  have hpiece : (Piece.ofFrame setting frame m.state.world).1
      = Piece.close frame.path (Piece.fieldParts setting frame (Piece.included setting frame) none
          m.state.world).1 (some error) := by
    simp only [Piece.ofFrame, hc.failure]
  have hdata : next.state.data = m.state.data.fill frame.path .null := by
    rw [hnext, State.graft_data, hpiece, data_next hn, Piece.close]
  refine
    { data := hdata
      elsewhere := fun slot hslot => by rw [hdata, Json.at?_fill_of_apart hslot]
      reported := ?_
      unresolved := fun others => ?_ }
  · simp [hnext, State.graft, hpiece, Piece.close]
  · obtain ⟨connection, hsource, known, world, hpassed, hbreaks⟩ := hc.breaks
    have hadmits := Container.admits_object hkeys
    rw [hrest, State.write_placeholders hslot hkeys, world_next hn, hnext]
    rw [hc.included] at hadmits ⊢
    rw [Piece.resolveFields_eq_of_failure hpassed
      ((Piece.fst_fieldPart_eq_error_iff hsource).2 hbreaks) hslot []
      (by simpa [fieldSteps, Function.comp_def] using hadmits) others,
      resolveFields_eq_graft setting frame hslot _ none [] _
      (by simpa [fieldSteps, Function.comp_def] using hadmits)]
    simp [Piece.ofFrame, hc.included]

/-! ## The time after a collapse -/

/-- What is open and not gone lies apart from the slot of a resolved object that is null. -/
theorem Sound.apart_of_null (h : Sound setting root past m) (hf : Resolved past frame)
    (hnull : m.state.data.at? frame.path = some .null) {work : Work W O C T}
    (hw : work ∈ m.works) (hs : (m.state.data.at? work.path).isSome) :
    Path.Apart frame.path work.path := by
  have hfresh := h.fresh work hw frame hf
  refine ⟨?_, hfresh⟩
  rintro ⟨tail, ht⟩
  obtain ⟨value, hv⟩ := Option.isSome_iff_exists.1 hs
  rw [← ht, Json.at?_append_of_eq hnull] at hv
  obtain rfl := eq_nil_of_at?_null hv
  exact hfresh ⟨[], by simpa using ht.symm⟩

/-- The slot stays null for one more move, and no error is added in it. -/
theorem Sound.null_move (h : Sound setting root past m) (hk : root.KeysDistinct)
    (hf : Resolved past frame) (hnull : m.state.data.at? frame.path = some .null)
    (hm : Move setting m next) :
    next.state.data.at? frame.path = some .null
      ∧ ∃ added, next.state.errors = m.state.errors ++ added
        ∧ ∀ error ∈ added, ∀ slot, error.path = some slot → ¬ frame.path <+: slot := by
  cases h.effect hk hm with
  | skip hn hd =>
    exact ⟨by rw [data_next hn, hnull], [], by simp [errors_next hn], by simp⟩
  | drain => exact ⟨hnull, [], by simp [drained], by simp⟩
  | @graft work rest hn hd =>
    have hapart := h.apart_of_null hf hnull (mem_works_next hn) (by simp [hd])
    refine ⟨?_, (work.piece setting m.state.world).1.errors, ?_, ?_⟩
    · rw [graft_state, State.graft_data, data_next hn, Json.at?_fill_of_apart hapart.symm, hnull]
    · rw [graft_state, State.graft, errors_next hn]
    · intro error he slot hslot
      have hkeys := h.keys_next hk hn
      have hmark : ((slot, .null) : Mark) ∈ (work.piece setting m.state.world).1.marks := by
        rw [Piece.marks_eq]
        exact List.mem_append_left _ (List.mem_filterMap.2 ⟨error, he, by rw [hslot]; rfl⟩)
      obtain ⟨tail, rfl, -⟩ := (Work.tidy_piece hkeys m.state.world).holds _ hmark
      exact (hapart.append_right tail).1

/-- A task that was forced stays one that was forced. -/
theorem Forced.mono {pending : Pending W O C T} {past' : List (Moment W O C T)}
    (h : Forced setting past pending) (hsub : past ⊆ past') : Forced setting past' pending := by
  obtain ⟨m, hm, hp, fuel, outcomes, world, hd, hdrained⟩ := h
  exact ⟨m, hsub hm, hp, fuel, outcomes, world, hd, hsub hdrained⟩

/-- A task that waits still does after one more move, or the move drains all that wait. -/
theorem Sound.pending_move (h : Sound setting root past m) (hk : root.KeysDistinct)
    (hm : Move setting m next) {pending : Pending W O C T} (hp : pending ∈ m.state.pending) :
    pending ∈ next.state.pending ∨ ∃ fuel outcomes world,
      Execution.drain setting fuel m.state = some (.completed outcomes, world)
        ∧ next = m.drained outcomes world := by
  have hrest : ∀ {work : Work W O C T} {rest : Moment W O C T}, m.next? = some (work, rest) →
      pending ∈ rest.state.pending := by
    intro work rest hn
    rcases next?_eq_some hn with ⟨_, _, _, _, hs⟩ | ⟨_, _, _, _, _, hs⟩
    · rwa [hs]
    · rwa [hs] at hp
  cases h.effect hk hm with
  | skip hn => exact .inl (hrest hn)
  | graft hn => exact .inl (List.mem_append_left _ (hrest hn))
  | drain hn hne hs hd => exact .inr ⟨_, _, _, hd, rfl⟩

end

section
variable {setting : Setting W O C T} {tree : SelectionTree (Definition W O C T)} {root : O}
  {world : W} {past since : List (Moment W O C T)} {m next later : Moment W O C T}
  {frame : Frame W O C T} {before after : List (Node (Definition W O C T))}
  {child : Node (Definition W O C T)} {error : FieldError}

/-- The slot of a connection that collapsed stays null. -/
theorem Reaches.staysNull (hk : tree.root.KeysDistinct)
    (hr : Reaches setting (.start root tree world) past m) (hm : Move setting m next)
    (hc : Collapse setting m frame before child after error)
    (hl : Reaches setting next since later) :
    StaysNull setting next frame.path since later := by
  have hcollapsed := (hr.sound hk).collapsed hk hm hc
  have hsound : ∀ {since later}, Reaches setting next since later →
      Sound setting tree.root (since ++ m :: past) later :=
    fun hl => ((hr.move hm).trans hl).sound hk
  have hresolved : ∀ since, Resolved (since ++ m :: past) frame :=
    fun since => ⟨m, by simp, hc.resolves⟩
  -- What the induction carries; the rest holds at each moment by itself.
  have hcarried : later.state.data.at? frame.path = some .null
      ∧ (∃ added, later.state.errors = next.state.errors ++ added
        ∧ ∀ error ∈ added, ∀ slot, error.path = some slot → ¬ frame.path <+: slot)
      ∧ ∀ pending ∈ next.state.pending,
        pending ∈ later.state.pending ∨ Forced setting (later :: since) pending := by
    induction hl with
    | start =>
      refine ⟨?_, ⟨[], by simp, by simp⟩, fun pending hp => .inl hp⟩
      rw [hcollapsed.data, Json.at?_fill_self hc.resolves.2]
    | @move since later latest hl hm' ih =>
      obtain ⟨hnull, ⟨added, herrors, houtside⟩, hforced⟩ := ih
      have hs := hsound hl
      obtain ⟨hnull', more, herrors', houtside'⟩ := hs.null_move hk (hresolved since) hnull hm'
      refine ⟨hnull', ⟨added ++ more, by rw [herrors', herrors, List.append_assoc], ?_⟩, ?_⟩
      · intro error he
        rcases List.mem_append.1 he with he | he
        · exact houtside error he
        · exact houtside' error he
      · intro pending hp
        rcases hforced pending hp with hp | hp
        · rcases hs.pending_move hk hm' hp with hp' | ⟨fuel, outcomes, world, hd, rfl⟩
          · exact .inl hp'
          · exact .inr ⟨later, by simp, hp, fuel, outcomes, world, hd, by simp⟩
        · exact .inr (hp.mono (List.subset_cons_self ..))
  obtain ⟨hnull, ⟨added, herrors, houtside⟩, hforced⟩ := hcarried
  have hs := hsound hl
  refine
    { null := hnull
      one_error := length_filter_path hs.nodup_paths ?_
      errors := ⟨added, herrors, houtside⟩
      unresolved := ?_
      idle := ?_
      forced := hforced }
  · rw [herrors, List.filterMap_append]
    exact List.mem_append_left _
      (List.mem_filterMap.2 ⟨_, List.mem_of_getLast? hcollapsed.reported, rfl⟩)
  · rintro other hp ⟨⟨rest, hn⟩, hother⟩
    exact (hs.apart_of_null (hresolved since) hnull (mem_works_next hn) hother).1 hp
  · intro work rest hn hp
    refine run_of_none setting (next_ne_task hn) ?_
    rw [data_next hn, ← Option.not_isSome_iff_eq_none]
    exact fun hsome => (hs.apart_of_null (hresolved since) hnull (mem_works_next hn) hsome).1 hp

end

/-- What comes before a moment that was passed, and what comes after it. -/
theorem Reaches.split {setting : Setting W O C T} {start last : Moment W O C T}
    {past : List (Moment W O C T)} (h : Reaches setting start past last) {m : Moment W O C T}
    (hm : m ∈ past) : ∃ before next since, Reaches setting start before m ∧ Move setting m next
      ∧ Reaches setting next since last ∧ past = since ++ m :: before
      ∧ next ∈ last :: past := by
  induction h with
  | start => cases hm
  | @move past latest last hl hmove ih =>
    rcases List.mem_cons.1 hm with rfl | hm
    · exact ⟨past, last, [], hl, hmove, .start, rfl, by simp⟩
    · obtain ⟨before, next, since, hbefore, hnext, hsince, rfl, hmem⟩ := ih hm
      exact ⟨before, next, latest :: since, hbefore, hnext, hsince.move hmove, rfl,
        List.mem_cons_of_mem _ hmem⟩

/-- A connection becomes null exactly when it collapses, and then stays so: whatever is done
afterwards, its slot holds null and has the one error of the collapse, nothing within it is
resolved, and what still waits there is done without effect. In the response of an execution that
ends, the slot of each connection that collapsed holds null and has one error, and unless the
execution was stopped, the tasks that waited after the collapse were forced. -/
theorem execute_staysNull {setting : Setting W O C T}
    {tree : SelectionTree (Definition W O C T)} (hk : tree.root.KeysDistinct) {root : O}
    {world : W} :
    (∀ past m frame, Reaches setting (.start root tree world) past m → Resolves m frame →
      ((resolveFrame setting frame m.state).data.at? frame.path = some .null
        ↔ ∃ before child after error, Collapse setting m frame before child after error)
      ∧ ∀ before child after error, Collapse setting m frame before child after error →
        ∀ next, Move setting m next → Collapsed setting m next frame before child error
          ∧ ∀ since later, Reaches setting next since later →
            StaysNull setting next frame.path since later)
    ∧ ∀ fuel answer after, execute setting tree root fuel world = some (answer, after) →
      ∃ past last stop, Reaches setting (.start root tree world) past last
        ∧ Ends setting last stop
        ∧ ∀ m ∈ past, ∀ frame before child after error,
          Collapse setting m frame before child after error →
            answer.data.bind (·.at? frame.path) = some .null
            ∧ (answer.errors.filter fun error => error.path = some frame.path).length = 1
            ∧ ∃ next ∈ last :: past, Move setting m next
              ∧ (stop = none → ∀ pending ∈ next.state.pending,
                Forced setting (last :: past) pending) := by
  constructor
  · intro past m frame hr hres
    refine ⟨(hr.sound hk).null_iff_collapse hk hres, ?_⟩
    intro before child after error hc next hm
    exact ⟨(hr.sound hk).collapsed hk hm hc, fun since later hl => hr.staysNull hk hm hc hl⟩
  · intro fuel answer after h
    obtain ⟨past, last, hr, hdata, stop, herrors, hends⟩ := execute_eq_some hk h
    refine ⟨past, last, stop, hr, hends, ?_⟩
    intro m hm frame before child after error hc
    obtain ⟨earlier, next, since, hearlier, hmove, hsince, rfl, hnext⟩ := hr.split hm
    have hstays := hearlier.staysNull hk hmove hc hsince
    have hpathless : (stop.map ResponseError.ofExecutionError).toList.filter
        (fun error => error.path = some frame.path) = [] := by
      cases stop <;> rfl
    refine ⟨by simp [hdata, hstays.null], ?_, next, hnext, hmove, ?_⟩
    · rw [herrors, List.filter_append, hpathless, List.append_nil]
      exact hstays.one_error
    · rintro rfl pending hp
      have hlast : last.state.pending = [] := by
        cases hends with
        | finished hw => simpa [works] using (List.append_eq_nil_iff.1 hw).2
      rcases hstays.forced pending hp with hp | hp
      · simp [hlast] at hp
      · exact hp.mono (List.cons_subset_cons _ (List.subset_append_left ..))

/-- A field with a resolver that always has the same outcome. -/
def fixedField (name : String) (type : TypeRef) (outcome : Outcome Unit Unit Unit) :
    Node (Definition Unit Unit Unit Unit) :=
  { Node.ofField ⟨0, none, name, [], [], "Items", type⟩ false with
    definitions := [⟨.default "Items" name, { strategy := .custom fun _ _ => pure outcome }⟩] }

/-- A field that is answered with a task. -/
def laterField : Node (Definition Unit Unit Unit Unit) :=
  fixedField "later" (.named "String") (.ok (.lazy ()))

/-- A field that connections do not support. -/
def brokenField : Node (Definition Unit Unit Unit Unit) :=
  fixedField "broken" (.named "String") (.error (.unsupported "Items" "broken"))

/-- The field of an empty connection, of which both are selected. -/
def itemsField : Node (Definition Unit Unit Unit Unit) where
  key := "items"
  name := "items"
  owner := "Query"
  type := .named "Items"
  isComposite := true
  occurrences := []
  definitions := [⟨.default "Query" "items",
    { strategy := .custom fun _ _ => pure (.ok (.collection ())), connection := some [] }⟩]
  buckets := [⟨"Items", [laterField, brokenField]⟩]

/-- The selection of that field. -/
def brokenTree : SelectionTree (Definition Unit Unit Unit Unit) :=
  ⟨.query, { Node.root "Query" with buckets := [⟨"Query", [itemsField]⟩] }⟩

/-- The connection. -/
def brokenFrame : Frame Unit Unit Unit Unit where
  path := [.key "items"]
  source := .connection ⟨"Items", none, none, .host (), [], [], none⟩
  concrete := "Items"
  node := itemsField

/-- The moment when it is resolved. -/
def brokenMoment : Moment Unit Unit Unit Unit where
  steps := 0
  state := ⟨(), .object [("items", .object [])], [], [brokenFrame], []⟩
  due := []

/-- No two nodes of the broken tree share a key in one object. -/
theorem brokenTree_keysDistinct : brokenTree.root.KeysDistinct := by
  have hitems : itemsField.KeysDistinct := by
    refine Node.keysDistinct_of_bucket rfl (by decide) ?_
    simp only [List.forall_mem_cons]
    exact ⟨Node.keysDistinct_of_leaf rfl, Node.keysDistinct_of_leaf rfl, by simp⟩
  exact Node.keysDistinct_of_bucket rfl (by decide) (by simpa using hitems)

/-- The moment when the connection is resolved is reached. -/
theorem brokenTree_reaches :
    ∃ past, Reaches emptySetting (.start () brokenTree ()) past brokenMoment := by
  have hroot : Reaches emptySetting (.start () brokenTree ()) _ _ := .move .start (.work rfl)
  exact ⟨_, hroot⟩

/-- The later field leaves the connection as it is, and the broken one ends it. -/
theorem brokenTree_collapse : Collapse emptySetting brokenMoment brokenFrame [laterField]
    brokenField [] (.unsupported "Items" "broken") where
  resolves := ⟨⟨_, rfl⟩, rfl⟩
  included := rfl
  breaks := ⟨_, rfl, none, (), rfl, rfl, _, rfl, none, (), rfl, .inl rfl⟩

/-- The connection becomes null when a task waits in it already. -/
theorem execute_staysNull_brokenTree :
    brokenTree.root.KeysDistinct
      ∧ (∃ answer, execute emptySetting brokenTree () 2 () = some (answer, ())
        ∧ answer.data = some (.object [("items", .null)])
        ∧ answer.errors.map ResponseError.path = [some [.key "items"]])
      ∧ ∃ next, Move emptySetting brokenMoment next
        ∧ next.state.pending.map Pending.path = [[.key "items", .key "later"]]
        ∧ Collapsed emptySetting brokenMoment next brokenFrame [laterField] brokenField
          (.unsupported "Items" "broken")
        ∧ ∀ since later, Reaches emptySetting next since later →
          StaysNull emptySetting next [.key "items"] since later := by
  obtain ⟨past, hr⟩ := brokenTree_reaches
  have hstays := ((execute_staysNull brokenTree_keysDistinct).1 past _ _ hr
    brokenTree_collapse.resolves).2 _ _ _ _ brokenTree_collapse _ (.work rfl)
  exact ⟨brokenTree_keysDistinct, ⟨_, rfl, rfl, rfl⟩, _, .work rfl, rfl, hstays.1, hstays.2⟩

end QueryEngine.Execution
