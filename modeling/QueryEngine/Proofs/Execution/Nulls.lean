import QueryEngine.Proofs.Execution.Course

/-!
# Errors and nulls correspond

Whatever the resolvers, the tasks and the connections do, and whether or not an execution is
stopped: no slot has two errors, the slot of an error holds null unless a connection around it
became null, every error has a code, only the last one can be without a path, and an execution that
comes to its end by itself has exactly one error for each null in a slot that must not hold one
(`execute_errors`).
-/

namespace QueryEngine.Execution

variable {W O C T : Type}

/-- How the errors of a response correspond to the nulls in its data, after the moments that the
execution passed. -/
structure ErrorsCorrespond (setting : Setting W O C T) (past : List (Moment W O C T))
    (data : Json) (errors : List ResponseError) : Prop where
  distinct : (errors.filterMap ResponseError.path).Nodup
  null_or_lost : ∀ error ∈ errors, ∀ path, error.path = some path →
    data.at? path = some .null
      ∨ data.at? path = none ∧ ∃ around rest, Nulled setting past around
        ∧ data.at? around = some .null ∧ rest ≠ [] ∧ path = around ++ rest
  coded : ∀ error ∈ errors, (error.extensions.lookup "code").isSome
  pathless_last : ∀ before error after, errors = before ++ error :: after → error.path = none →
    after = []
  /-- Without an error that has no path, each null in a slot whose type has none is accounted for
  by one error. -/
  one_each : (∀ error ∈ errors, error.path.isSome) → ∀ path type, Slot setting past path type →
    type.isNonNull → data.at? path = some .null →
      (errors.filter fun error => error.path = some path).length = 1

/-- The paths of errors, from their marks. -/
theorem map_fst_errorMarks (errors : List ResponseError) :
    (errorMarks errors).map Prod.fst = errors.filterMap ResponseError.path := by
  rw [errorMarks, List.map_filterMap]
  congr
  funext error
  cases error.path <;> rfl

/-- Of errors with distinct paths one at most has a given path. -/
theorem length_filter_path {errors : List ResponseError}
    (h : (errors.filterMap ResponseError.path).Nodup) {path : Path}
    (hp : path ∈ errors.filterMap ResponseError.path) :
    (errors.filter fun error => error.path = some path).length = 1 := by
  have hcount : (errors.filterMap ResponseError.path).count path = 1 :=
    List.count_eq_one_of_mem h hp
  rw [← hcount, List.count_filterMap, List.countP_eq_length_filter]
  simp only [beq_eq_decide]

/-- The code of an error that ends an execution. -/
theorem code_ofExecutionError (error : ExecutionError) :
    ((ResponseError.ofExecutionError error).extensions.lookup "code").isSome := by
  cases error <;> rfl

/-- If errors with paths are followed by one more error at most, nothing follows an error without
a path. -/
theorem eq_nil_of_pathless {errors last before after : List ResponseError} {error : ResponseError}
    (hpath : ∀ e ∈ errors, e.path.isSome) (hlast : last.length ≤ 1)
    (he : errors ++ last = before ++ error :: after) (hp : error.path = none) : after = [] := by
  rcases List.append_eq_append_iff.1 he with ⟨c, -, hc⟩ | ⟨c, hc, ht⟩
  · rw [hc] at hlast
    simp only [List.length_append, List.length_cons] at hlast
    exact List.length_eq_zero_iff.1 (by omega)
  · cases c with
    | nil =>
      rw [List.nil_append] at ht
      rw [← ht] at hlast
      exact List.length_eq_zero_iff.1 (by simpa using hlast)
    | cons first c =>
      obtain ⟨rfl, -⟩ := List.cons.inj ht
      have hsome := hpath error (by rw [hc]; simp)
      simp [hp] at hsome

section
variable {setting : Setting W O C T} {root : Node (Definition W O C T)}
  {past : List (Moment W O C T)} {m : Moment W O C T}

/-- No two errors have one path. -/
theorem Sound.nodup_paths (h : Sound setting root past m) :
    (m.state.errors.filterMap ResponseError.path).Nodup := by
  have hnodup := h.marked.nodup
  rw [Moment.marks, List.map_append, map_fst_errorMarks] at hnodup
  exact (List.nodup_append.1 hnodup).1

/-- The slot of an error holds null, or it is lost with a connection that became null. -/
theorem Sound.null_or_lost (h : Sound setting root past m) {error : ResponseError}
    (he : error ∈ m.state.errors) {path : Path} (hp : error.path = some path) :
    m.state.data.at? path = some .null
      ∨ m.state.data.at? path = none ∧ ∃ around rest, Nulled setting past around
        ∧ m.state.data.at? around = some .null ∧ rest ≠ [] ∧ path = around ++ rest := by
  have hmark : ((path, .null) : Mark) ∈ m.marks :=
    List.mem_append_left _ (List.mem_filterMap.2 ⟨error, he, by rw [hp]; rfl⟩)
  refine (h.marked.holds _ hmark).imp_right ?_
  intro hg
  refine ⟨hg.at?_eq_none, ?_⟩
  obtain ⟨around, rest, hl, hne, he, hnull⟩ := hg
  exact ⟨around, rest, hl, hnull, hne, he⟩

/-- No task waits at the end of an execution that nothing stopped. -/
theorem Ends.waiting_eq_nil (h : Ends setting m none) : m.waiting = [] := by
  cases h with
  | finished hw =>
    simp only [Moment.works, List.append_eq_nil_iff, List.map_eq_nil_iff] at hw
    simp [Moment.waiting, hw]

/-- The errors of an execution that ends correspond to its data. -/
theorem Sound.errorsCorrespond (h : Sound setting root past m) (error : Option ExecutionError)
    (he : Ends setting m error) :
    ErrorsCorrespond setting past m.state.data
      (m.state.errors ++ (error.map ResponseError.ofExecutionError).toList) := by
  have hpathless : ∀ e ∈ (error.map ResponseError.ofExecutionError).toList, e.path = none := by
    intro e he
    obtain ⟨_, -, rfl⟩ := Option.map_eq_some_iff.1 (Option.mem_toList.1 he)
    rfl
  have hpaths : (m.state.errors ++ (error.map ResponseError.ofExecutionError).toList).filterMap
      ResponseError.path = m.state.errors.filterMap ResponseError.path := by
    rw [List.filterMap_append, List.filterMap_eq_nil_iff.2 hpathless, List.append_nil]
  refine
    { distinct := hpaths ▸ h.nodup_paths
      null_or_lost := ?_
      coded := ?_
      pathless_last := ?_
      one_each := ?_ }
  · intro e he path hp
    rcases List.mem_append.1 he with he | he
    · exact h.null_or_lost he hp
    · simp [hpathless e he] at hp
  · intro e he
    rcases List.mem_append.1 he with he | he
    · exact (h.labelled e he).2
    · obtain ⟨_, -, rfl⟩ := Option.map_eq_some_iff.1 (Option.mem_toList.1 he)
      exact code_ofExecutionError _
  · intro before e after
    refine eq_nil_of_pathless (fun e he => (h.labelled e he).1) ?_
    cases error <;> simp
  · intro hsome path type hs ht hnull
    have hnone : error = none := by
      cases error with
      | none => rfl
      | some error =>
        have hpath := hsome (.ofExecutionError error) (by simp)
        cases hpath
    subst hnone
    have hmem := h.accounted path type hs ht hnull
    rw [Moment.nulls, he.waiting_eq_nil, List.map_nil, List.append_nil] at hmem
    simpa using length_filter_path h.nodup_paths hmem

end

/-- Errors and nulls correspond in the response of every execution. -/
theorem execute_errors {setting : Setting W O C T}
    {tree : SelectionTree (Definition W O C T)} (hk : tree.root.KeysDistinct) {root : O}
    {fuel : Nat} {world world' : W} {answer : Response}
    (h : execute setting tree root fuel world = some (answer, world')) :
    ∃ past last, Reaches setting (.start root tree world) past last
      ∧ answer.data = some last.state.data
      ∧ ErrorsCorrespond setting past last.state.data answer.errors := by
  obtain ⟨past, last, hr, hd, error, he, hends⟩ := execute_eq_some hk h
  exact ⟨past, last, hr, hd, he ▸ (hr.sound hk).errorsCorrespond error hends⟩

/-- A field without a definition, of a type that has no null. -/
def undefinedField : Node (Definition Unit Unit Unit Unit) :=
  .ofField ⟨0, none, "name", [], [], "Query", .nonNullNamed "String"⟩ false

/-- The selection of one such field. -/
def undefinedTree : SelectionTree (Definition Unit Unit Unit Unit) :=
  ⟨.query, { Node.root "Query" with buckets := [⟨"Query", [undefinedField]⟩] }⟩

/-- A host of tasks that come to nothing. -/
def emptySetting : Setting Unit Unit Unit Unit :=
  bareSetting fun _ => .ready (.ok .null)

/-- No two nodes of the tree share a key in one object. -/
theorem undefinedTree_keysDistinct : undefinedTree.root.KeysDistinct := by
  have hleaf : undefinedField.KeysDistinct := Node.keysDistinct_of_leaf rfl
  exact Node.keysDistinct_of_bucket rfl (by decide) (by simpa using hleaf)

/-- The null of the field has its error. -/
theorem execute_errors_undefinedTree :
    undefinedTree.root.KeysDistinct ∧
      ∃ answer, execute emptySetting undefinedTree () 1 () = some (answer, ())
        ∧ answer.errors.map ResponseError.path = [some [.key "name"]]
        ∧ ∃ past last, Reaches emptySetting (.start () undefinedTree ()) past last
          ∧ answer.data = some last.state.data
          ∧ ErrorsCorrespond emptySetting past last.state.data answer.errors :=
  ⟨undefinedTree_keysDistinct, _, rfl, rfl,
    execute_errors undefinedTree_keysDistinct (show execute _ _ _ 1 _ = _ from rfl)⟩

end QueryEngine.Execution
