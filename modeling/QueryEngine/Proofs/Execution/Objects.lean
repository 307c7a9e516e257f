import QueryEngine.Proofs.Execution.Filled
import QueryEngine.Proofs.Execution.Shape
import QueryEngine.Proofs.Selection.Merge

/-!
# Objects are complete

An object is queued with an empty place and resolved later, all its fields in one move. Until then
it waits, unless a connection around it becomes null, and then its place never comes back
(`Reaches.created`). An execution ends where only tasks are left, whatever ends it, so no object is
in the response without its keys (`executeRequest_complete`).
-/

namespace QueryEngine

namespace Execution

open Moment

variable {W O C T : Type}

/-- The place of the object was made, and it was queued there, by one of the moments. -/
def Created (moments : List (Moment W O C T)) (frame : Frame W O C T) : Prop :=
  ∃ m ∈ moments, .object frame ∈ m.works

/-- The value of an object that is complete: it has one key for each field that is included for the
type of the object, in the order of the selections. A connection may also be null, if one of its
fields failed it. -/
def Complete (setting : Setting W O C T) (frame : Frame W O C T) (value : Json) : Prop :=
  (value = .null ∧ ∃ connection, frame.source = .connection connection)
    ∨ ∃ fields, value = .object fields
      ∧ fields.map Prod.fst = (Piece.included setting frame).map Node.key

/-! ## Places that are gone -/

section
variable {setting : Setting W O C T} {root : Node (Definition W O C T)}
  {past : List (Moment W O C T)} {m next : Moment W O C T} {frame : Frame W O C T} {path : Path}

/-- A connection that became null stays one. -/
theorem Nulled.cons (h : Nulled setting past path) : Nulled setting (m :: past) path := by
  obtain ⟨earlier, he, hrest⟩ := h
  exact ⟨earlier, List.mem_cons_of_mem _ he, hrest⟩

/-- Whatever lies within the slot of a connection that became null is gone. -/
theorem Sound.gone_of_nulled (h : Sound setting root past m) {around rest : Path}
    (hn : Nulled setting past around) (hr : rest ≠ []) :
    Gone m.state.data (Nulled setting past) (around ++ rest) := by
  have hmark : (around, .null) ∈ m.marks := h.marked.lost_mem around hn
  rcases h.marked.holds _ hmark with hnull | ⟨outer, tail, hlost, -, rfl, hnull⟩
  · exact ⟨around, rest, hn, hr, rfl, hnull⟩
  · exact ⟨outer, tail ++ rest, hlost, by simp [hr], by simp, hnull⟩

/-- A place that is gone does not come back. -/
theorem Gone.move (h : Gone m.state.data (Nulled setting past) path)
    (hs : Sound setting root (m :: past) next) :
    Gone next.state.data (Nulled setting (m :: past)) path := by
  obtain ⟨around, rest, hnulled, hrest, rfl, -⟩ := h
  exact hs.gone_of_nulled hnulled.cons hrest

/-- An object that waits is resolved next, waits for one more move, or its place is gone. -/
theorem Sound.created_move (h : Sound setting root past m) (hk : root.KeysDistinct)
    (hm : Move setting m next) (hw : .object frame ∈ m.works) :
    Resolves m frame ∨ .object frame ∈ next.works
      ∨ Gone next.state.data (Nulled setting (m :: past)) frame.path := by
  have hmark : (Work.object frame).mark ∈ m.marks :=
    List.mem_append_right _ (List.mem_map_of_mem hw)
  rcases h.marked.holds _ hmark with hplace | hgone
  · have hexists : (m.state.data.at? frame.path).isSome :=
      Option.isSome_iff_exists.2 ⟨_, hplace⟩
    rcases h.object_move hk hm hw hexists with hresolves | ⟨hwaits, -⟩
    · exact .inl hresolves
    · exact .inr (.inl hwaits)
  · have hnext : Gone next.state.data (Nulled setting (m :: past)) frame.path :=
      Gone.move hgone (h.move hk hm)
    exact .inr (.inr hnext)

end

/-! ## Over a whole execution -/

section
variable {setting : Setting W O C T} {tree : SelectionTree (Definition W O C T)} {root : O}
  {world : W} {past : List (Moment W O C T)} {m : Moment W O C T}

/-- An object that was created is resolved, or it waits, or its place is gone. -/
theorem Reaches.created (hk : tree.root.KeysDistinct)
    (h : Reaches setting (.start root tree world) past m) {frame : Frame W O C T}
    (hc : Created (m :: past) frame) :
    Resolved past frame ∨ .object frame ∈ m.works
      ∨ Gone m.state.data (Nulled setting past) frame.path := by
  induction h with
  | start =>
    obtain ⟨earlier, he, hw⟩ := hc
    rw [List.mem_singleton.1 he] at hw
    exact .inr (.inl hw)
  | @move past m next hr hm ih =>
    have hsound := hr.sound hk
    obtain ⟨earlier, he, hw⟩ := hc
    rcases List.mem_cons.1 he with rfl | he
    · exact .inr (.inl hw)
    · rcases ih ⟨earlier, he, hw⟩ with hresolved | hwaits | hgone
      · exact .inl hresolved.cons
      · rcases hsound.created_move hk hm hwaits with hresolves | hrest
        · exact .inl (resolved_cons.2 (.inl hresolves))
        · exact .inr hrest
      · exact .inr (.inr (Gone.move hgone (hsound.move hk hm)))

/-- An object that was created has all its keys, or none as it still waits, wherever its place
exists. -/
theorem Reaches.complete (hk : tree.root.KeysDistinct)
    (h : Reaches setting (.start root tree world) past m) {frame : Frame W O C T}
    (hc : Created (m :: past) frame) {value : Json}
    (hv : m.state.data.at? frame.path = some value) :
    Complete setting frame value ∨ .object frame ∈ m.works ∧ value = .object [] := by
  rcases h.created hk hc with hresolved | hwaits | hgone
  · exact .inl ((h.composed hk).kept frame hresolved value hv)
  · have hmark : (Work.object frame).mark ∈ m.marks :=
      List.mem_append_right _ (List.mem_map_of_mem hwaits)
    have hplace : m.state.data.at? frame.path = some (.object []) :=
      (h.sound hk).marked.at?_eq hmark (Option.isSome_iff_exists.2 ⟨value, hv⟩)
    exact .inr ⟨hwaits, Option.some.inj (hv.symm.trans hplace)⟩
  · rw [hgone.at?_eq_none] at hv
    cases hv

/-- The fields of an object that was created are those of a node of the tree, with distinct keys. -/
theorem Reaches.within_of_created (hk : tree.root.KeysDistinct)
    (h : Reaches setting (.start root tree world) past m) {frame : Frame W O C T}
    (hc : Created (m :: past) frame) : Node.Within tree.root frame.node := by
  obtain ⟨earlier, he, hw⟩ := hc
  rcases List.mem_cons.1 he with rfl | he
  · exact (h.sound hk).within _ hw
  · obtain ⟨before, -, -, hbefore, -⟩ := h.split he
    exact (hbefore.sound hk).within _ hw

/-- Where only tasks are left, a slot with an error or a task holds null, if it exists. -/
theorem Sound.eq_null_of_mem_nulls {node : Node (Definition W O C T)}
    (h : Sound setting node past m) (hn : m.next? = none) {path : Path} (hp : path ∈ m.nulls)
    {value : Json} (hv : m.state.data.at? path = some value) : value = .null := by
  have hmark : (path, .null) ∈ m.marks := by
    rcases List.mem_append.1 hp with hp | hp
    · obtain ⟨error, he, hpath⟩ := List.mem_filterMap.1 hp
      exact List.mem_append_left _ (List.mem_filterMap.2 ⟨error, he, by rw [hpath]; rfl⟩)
    · obtain ⟨pending, hpending, rfl⟩ := List.mem_map.1 hp
      rw [waiting, (Moment.next?_eq_none hn).1] at hpending
      refine List.mem_append_right _ (List.mem_map.2 ⟨.task pending, ?_, rfl⟩)
      rw [works_of_next?_eq_none hn]
      exact List.mem_map_of_mem hpending
  have hnull := h.marked.at?_eq hmark (Option.isSome_iff_exists.2 ⟨value, hv⟩)
  exact Option.some.inj (hv.symm.trans hnull)

end

/-- An execution halts where only tasks are left: it finished, it is cancelled, it is at its limit,
or the next drain step is cancelled. -/
theorem execute_reaches_halt {setting : Setting W O C T}
    {tree : SelectionTree (Definition W O C T)} (hk : tree.root.KeysDistinct) {root : O}
    {fuel : Nat} {world : W} {answer : Response × W}
    (h : execute setting tree root fuel world = some answer) :
    ∃ past last error final, Reaches setting (.start root tree world) past last
      ∧ last.next? = none ∧ Halts setting last.steps last.state error final
      ∧ answer = (response error final, final.world)
      ∧ answer.1.data = some last.state.data := by
  have h : execute (setting.limited setting.registry.configuration.maxDrainSteps) tree root fuel
      world = some answer := h
  obtain ⟨steps, state, error, final, hs, hl, hhalts, hanswer, hdata, -, -⟩ := execute_halts hk h
  obtain ⟨⟨past, hr⟩, hf⟩ := hs.reaches hk _ hl
  have hn : (⟨steps, state, []⟩ : Moment W O C T).next? = none := by simp [Moment.next?, hf]
  exact ⟨past, ⟨steps, state, []⟩, error, final, hr, hn, hhalts, hanswer, hdata⟩

/-- However a request ends, every object that was created and is still in the response is complete:
it has exactly the keys of the fields that are included for its type, each once and in the order of
the selections. The root is such an object. What is not resolved is null: the slots of tasks that
still wait, which belong to fields of such objects, and the slots of errors. -/
theorem executeRequest_complete {setting : Setting W O C T} {document : Document}
    {name : Option String} {root : O} {fuel : Nat} {world : W} {answer : Response × W}
    (h : executeRequest setting document name root fuel world = some answer) :
    (∃ error, setting.registry.selectionTree document name = .error error
        ∧ answer = (refuse error, world))
      ∨ ∃ tree past last error final, setting.registry.selectionTree document name = .ok tree
        ∧ Reaches setting (.start root tree world) past last
        ∧ Halts setting last.steps last.state error final
        ∧ answer = (response error final, final.world)
        ∧ answer.1.data = some last.state.data
        ∧ Created (last :: past) (rootFrame tree root)
        ∧ (∀ frame, Created (last :: past) frame → Node.Within tree.root frame.node
          ∧ ((Piece.included setting frame).map Node.key).Nodup
          ∧ ∀ value, last.state.data.at? frame.path = some value → Complete setting frame value)
        ∧ (∀ pending ∈ last.waiting, Owned setting past pending)
        ∧ ∀ path ∈ last.nulls, ∀ value, last.state.data.at? path = some value →
          value = .null := by
  unfold executeRequest at h
  cases ht : setting.registry.selectionTree document name with
  | error error =>
    rw [ht] at h
    exact .inl ⟨error, rfl, (Option.some.inj h).symm⟩
  | ok tree =>
    rw [ht] at h
    have hk := selectionTree_keysDistinct ht
    obtain ⟨past, last, error, final, hr, hn, hhalts, hanswer, hdata⟩ := execute_reaches_halt hk h
    refine .inr ⟨tree, past, last, error, final, rfl, hr, hhalts, hanswer, hdata, ?_, ?_,
      (hr.composed hk).owned, fun path hp value hv =>
        (hr.sound hk).eq_null_of_mem_nulls hn hp hv⟩
    · exact ⟨_, hr.mem_start, List.mem_singleton.2 rfl⟩
    · intro frame hc
      have hwithin := hr.within_of_created hk hc
      refine ⟨hwithin, included_nodup hk hwithin, ?_⟩
      intro value hv
      refine (hr.complete hk hc hv).resolve_right ?_
      rintro ⟨hw, -⟩
      rw [works_of_next?_eq_none hn] at hw
      obtain ⟨pending, -, he⟩ := List.mem_map.1 hw
      cases he

/-- A registry of one type with a field, and a limit of one drain step. -/
def clockRegistry : Registry Unit Unit Unit Bool where
  schema := ⟨[⟨"Query", .object [] [⟨"now", .named "Query", []⟩]⟩], "Query", none, none⟩
  configuration := { maxDrainSteps := some 1 }

/-- A host whose field is a task with a task for its outcome. -/
def clockSetting : Setting Unit Unit Unit Bool :=
  { chainSetting with
    host := { chainSetting.host with
      call := fun _ _ _ world => (some (.ok (.lazy true)), world) }
    registry := clockRegistry }

/-- The field twice, once with a condition that does not hold, and the name of the type. -/
def clockDocument : Document where
  operations :=
    [⟨.query, none,
      [.field ⟨0, some "late", "now", [], [], "Query", .named "Query"⟩
        [.field ⟨1, none, "__typename", [], [], "Query", .nonNullNamed "String"⟩ []],
       .field ⟨2, none, "now", [], [⟨"include", [("if", .bool false)]⟩], "Query",
          .named "Query"⟩
        [.field ⟨3, none, "__typename", [], [], "Query", .nonNullNamed "String"⟩ []],
       .field ⟨4, none, "__typename", [], [], "Query", .nonNullNamed "String"⟩ []]⟩]
  fragments := []

/-- At the limit the object of the root has its keys, and the slot of the task that waits holds
null. -/
theorem executeRequest_complete_clockDocument :
    ∃ answer, executeRequest clockSetting clockDocument none () 2 () = some (answer, ())
      ∧ answer.data
        = some (.object [("late", .null), ("__typename", .string "Query")])
      ∧ answer.pathless = [.ofExecutionError (.drainLimitExceeded 1)]
      ∧ ∃ tree past last, Reaches clockSetting (.start () tree ()) past last
        ∧ Created (last :: past) (rootFrame tree ())
        ∧ Complete clockSetting (rootFrame tree ()) last.state.data := by
  have hrun : executeRequest clockSetting clockDocument none () 2 () = some _ := rfl
  rcases executeRequest_complete hrun with ⟨error, ht, -⟩ | hcomplete
  · have hok : (clockRegistry.selectionTree clockDocument none).toOption.isSome := rfl
    have ht : clockRegistry.selectionTree clockDocument none = .error error := ht
    rw [ht] at hok
    cases hok
  · obtain ⟨tree, past, last, -, -, -, hr, -, -, -, hroot, hcreated, -⟩ := hcomplete
    obtain ⟨-, -, hvalue⟩ := hcreated _ hroot
    exact ⟨_, hrun, rfl, rfl, tree, past, last, hr, hroot, hvalue _ (Json.at?_nil _)⟩

end Execution

end QueryEngine
