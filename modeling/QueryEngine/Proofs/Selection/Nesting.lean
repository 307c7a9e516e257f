import QueryEngine.Proofs.Selection.Merge

/-!
# Trees are built within the recursion limit

Merging fails for one reason only: more selection sets enclose each other than the recursion limit
allows, those of spread fragments counted (`MergeContext.fails_collect`). An operation that nests
within the limit has a selection tree (`exists_selectionTree`).
-/

namespace QueryEngine

/-- Whether no more than so many selection sets enclose each other, the given one included. -/
def nestsWithin (fragment? : String → Option Fragment) : Nat → List Selection → Bool
  | 0, _ => false
  | depth + 1, selections =>
    selections.all fun
      | .field _ inner => inner.isEmpty || nestsWithin fragment? depth inner
      | .inlineFragment _ inner => nestsWithin fragment? depth inner
      | .fragmentSpread spread =>
        (fragment? spread.fragment).all fun fragment =>
          nestsWithin fragment? depth fragment.selections

/-! ## When merging fails -/

/-- The merge fails at the recursion limit if the flag is set, and succeeds if not. -/
def Fails {α : Type} (merge : Except BuildError α) (flag : Bool) : Prop :=
  if flag then merge = .error .recursionLimitExceeded else ∃ result, merge = .ok result

namespace Fails

variable {α β : Type} {flag : Bool}

/-- A value is no failure. -/
theorem ok (a : α) : Fails (.ok a) false := ⟨a, rfl⟩

/-- Mapping the value does not change whether the merge fails. -/
theorem map {merge : Except BuildError α} (h : Fails merge flag) (f : α → β) :
    Fails (merge.map f) flag := by
  cases flag with
  | true => exact congrArg (Except.map f) h
  | false =>
    obtain ⟨a, rfl⟩ := h
    exact ok (f a)

/-- A fold fails if one of its steps does. -/
theorem foldlM {step : β → α → Except BuildError β} {flags : α → Bool} {items : List α}
    (h : ∀ item ∈ items, ∀ b, Fails (step b item) (flags item)) (b : β) :
    Fails (items.foldlM step b) (items.any flags) := by
  induction items generalizing b with
  | nil => exact ok b
  | cons item rest ih =>
    have hfirst := h item (List.mem_cons_self ..) b
    rw [List.foldlM_cons, List.any_cons]
    cases hflag : flags item with
    | true =>
      rw [hflag] at hfirst
      show (step b item >>= _) = _
      rw [show step b item = .error .recursionLimitExceeded from hfirst]
      rfl
    | false =>
      rw [hflag] at hfirst
      obtain ⟨mid, hm⟩ := hfirst
      rw [hm, Bool.false_or]
      exact ih (fun other ho => h other (List.mem_cons_of_mem _ ho)) mid

end Fails

variable {D : Type}

namespace Bucket

/-- Changing the node of a key fails exactly if the change of a node does. -/
theorem fails_updateNode {key : String} {change : Node D → Except BuildError (Node D)}
    {flag : Bool} (h : ∀ node, Fails (change node) flag) (fresh : Node D)
    (nodes : List (Node D)) : Fails (updateNode key fresh change nodes) flag := by
  induction nodes with
  | nil => exact (h fresh).map _
  | cons node rest ih =>
    unfold updateNode
    split
    · exact (h node).map _
    · exact ih.map _

/-- Changing the bucket for a type fails exactly if the change of its nodes does. -/
theorem fails_update {type : String}
    {change : List (Node D) → Except BuildError (List (Node D))} {flag : Bool}
    (h : ∀ nodes, Fails (change nodes) flag) (buckets : List (Bucket D)) :
    Fails (update type change buckets) flag := by
  induction buckets with
  | nil => exact (h []).map _
  | cons bucket rest ih =>
    unfold update
    split
    · exact (h bucket.nodes).map _
    · exact ih.map _

end Bucket

namespace MergeContext

variable {context : MergeContext D}

/-- Whether selection sets that apply to some of the types enclose each other more deeply than the
depth allows, those of spread fragments counted. -/
def exceeds (context : MergeContext D) : Nat → List Selection → List String → Bool
  | 0, _, _ => true
  | depth + 1, selections, types =>
    selections.any fun
      | .field field inner =>
        types.any fun _ => ! inner.isEmpty
          && exceeds context depth inner (context.schema.possibleTypes field.type.inner)
      | .inlineFragment fragment inner =>
        exceeds context depth inner (fragment.condition?.elim types (context.narrow types))
      | .fragmentSpread spread =>
        (context.fragment? spread.fragment).any fun fragment =>
          exceeds context depth fragment.selections (context.narrow types fragment.condition)

/-- A field is merged unless merging its sub-selection fails. -/
theorem fails_mergeField {descend : Collector D} {field : Field} {selections : List Selection}
    {guards : List Guard} {flag : Bool}
    (h : ∀ buckets, Fails (descend selections
      (context.schema.possibleTypes field.type.inner) (guards ++ [.field field]) buckets) flag)
    (concrete : String) (node : Node D) :
    Fails (context.mergeField descend field selections guards concrete node)
      (! selections.isEmpty && flag) := by
  unfold mergeField
  cases selections with
  | nil => exact .ok _
  | cons first rest => exact (h _).map _

/-- Whether selections are merged depends on nothing but how deep they are. -/
theorem fails_collect (context : MergeContext D) (depth : Nat) (selections : List Selection)
    (types : List String) (guards : List Guard) (buckets : List (Bucket D)) :
    Fails (context.collect depth selections types guards buckets)
      (context.exceeds depth selections types) := by
  induction depth generalizing selections types guards buckets with
  | zero => exact rfl
  | succ depth ih =>
    refine .foldlM ?_ buckets
    intro selection _ before
    cases selection with
    | field field inner =>
      refine .foldlM ?_ before
      intro concrete _ buckets
      refine Bucket.fails_update (fun nodes => Bucket.fails_updateNode (fun node => ?_) _ nodes) _
      exact fails_mergeField (fun buckets => ih _ _ _ buckets) concrete node
    | inlineFragment fragment inner =>
      simp only [collectOne]
      cases fragment.condition? with
      | none => exact ih _ _ _ _
      | some condition => exact ih _ _ _ _
    | fragmentSpread spread =>
      simp only [collectOne]
      cases context.fragment? spread.fragment with
      | none => exact .ok before
      | some fragment => exact ih _ _ _ _

/-- Selections that nest within the depth do not exceed it. -/
theorem exceeds_eq_false {depth : Nat} {selections : List Selection}
    (h : nestsWithin context.fragment? depth selections) (types : List String) :
    context.exceeds depth selections types = false := by
  induction depth generalizing selections types with
  | zero => cases h
  | succ depth ih =>
    refine List.any_eq_false.2 ?_
    intro selection hm
    have hselection := List.all_eq_true.1 h selection hm
    cases selection with
    | field field inner =>
      rcases Bool.or_eq_true_iff.1 hselection with hempty | hinner
      · simp [hempty]
      · simp [ih hinner]
    | inlineFragment fragment inner => simp [ih hselection]
    | fragmentSpread spread =>
      cases hf : context.fragment? spread.fragment with
      | none => simp [hf]
      | some fragment =>
        have hfragment : nestsWithin context.fragment? depth fragment.selections := by
          simpa [hf] using hselection
        simp [hf, ih hfragment]

/-- Selections that nest within the depth are merged. -/
theorem exists_collect {depth : Nat} {selections : List Selection}
    (h : nestsWithin context.fragment? depth selections) (types : List String)
    (guards : List Guard) (buckets : List (Bucket D)) :
    ∃ buckets', context.collect depth selections types guards buckets = .ok buckets' := by
  have hfails := context.fails_collect depth selections types guards buckets
  rw [exceeds_eq_false h] at hfails
  exact hfails

end MergeContext

/-- A tree is made of an operation that nests within the recursion limit. -/
theorem SelectionTree.exists_ofOperation {D : Type} (context : MergeContext D) {limit : Nat}
    {operation : Operation}
    (hn : nestsWithin context.fragment? (limit + 1) operation.selections) (rootType : String) :
    ∃ tree, ofOperation context limit operation rootType = .ok tree := by
  obtain ⟨buckets, hb⟩ :=
    MergeContext.exists_collect hn [rootType] [] (Node.root rootType).buckets
  exact ⟨_, map_eq_ok_iff.2 ⟨buckets, hb, rfl⟩⟩

/-- An operation on a root type that nests within the recursion limit has a selection tree. -/
theorem exists_selectionTree {W O C T : Type} {registry : Registry W O C T} {document : Document}
    {name : Option String} {operation : Operation} {rootType : String}
    (ho : document.operation? name = some operation)
    (hr : registry.schema.root? operation.kind = some rootType)
    (hn : nestsWithin document.fragment? (registry.configuration.recursionLimit + 1)
      operation.selections) :
    ∃ tree, registry.selectionTree document name = .ok tree := by
  unfold Registry.selectionTree
  simp only [ho, hr]
  exact SelectionTree.exists_ofOperation (registry.mergeContext document) hn rootType

end QueryEngine
