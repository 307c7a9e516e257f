import QueryEngine.Execution.Run
import QueryEngine.Proofs.Language.Substitution
import QueryEngine.Proofs.Selection.Map

/-!
# Trees of documents without variables

Merging does not look at arguments and directives, so the tree of a document with the values of
variables in their places is the tree of the document with the values in the places of its
occurrences (`SelectionTree.ofOperation_substitute`). Each step of merging is followed
(`collectOne_substitute`), and `collect_substitute` is the induction on the depth.
-/

namespace QueryEngine

/-- A fold over mapped items from a mapped start maps the fold. -/
theorem foldlM_map_eq {ε α β γ δ : Type} {step : β → α → Except ε β} {step' : γ → δ → Except ε γ}
    {f : β → γ} {k : α → δ} {items : List α} {items' : List δ} (hi : items' = items.map k)
    (h : ∀ b a, step' (f b) (k a) = (step b a).map f) (b : β) :
    items'.foldlM step' (f b) = (items.foldlM step b).map f := by
  subst hi
  induction items generalizing b with
  | nil => rfl
  | cons item rest ih =>
    rw [List.map_cons, List.foldlM_cons, List.foldlM_cons, h]
    cases step b item with
    | error => rfl
    | ok next => exact ih next

variable {D : Type}

/-- What merging needs to know of the document with the values of variables in their places. -/
def MergeContext.substitute (vars : Fields) (context : MergeContext D) : MergeContext D :=
  { context with
    fragment? := fun name => (context.fragment? name).map (Fragment.substitute vars) }

section
variable (vars : Fields)

/-- The node with the values of variables in their places. -/
abbrev Node.substitute : Node D → Node D := Node.map id (List.map (Occurrence.substitute vars))

/-- The bucket with the values of variables in their places. -/
abbrev Bucket.substitute : Bucket D → Bucket D :=
  Bucket.map id (List.map (Occurrence.substitute vars))

/-- Writing values into guards goes on with one more guard. -/
theorem Guard.concat_substitute (guards : List Guard) (guard : Guard) :
    guards.map (substitute vars) ++ [guard.substitute vars]
      = (guards ++ [guard]).map (substitute vars) := by
  rw [List.map_append, List.map_singleton]

/-- A node starts from a field with values written in as one that has them written in. -/
theorem Node.ofField_substitute (field : Field) (isComposite : Bool) :
    (ofField (field.substitute vars) isComposite : Node D)
      = (ofField field isComposite).substitute vars := by
  rw [substitute, map_eq]
  rfl

/-- Opening buckets and writing values in can be done in either order. -/
theorem Bucket.foldl_ensure_substitute (types : List String) (buckets : List (Bucket D)) :
    types.foldl (fun buckets type => ensure type buckets) (buckets.map (Bucket.substitute vars))
      = (types.foldl (fun buckets type => ensure type buckets) buckets).map
        (Bucket.substitute vars) :=
  List.foldl_hom (List.map (Bucket.substitute vars)) fun buckets type =>
    ensure_map id (List.map (Occurrence.substitute vars)) type buckets

namespace MergeContext

variable (context : MergeContext D)

/-- Recording a field in a node and writing values in can be done in either order. -/
theorem record_substitute (field : Field) (guards : List Guard) (concrete : String)
    (node : Node D) :
    (context.substitute vars).record (field.substitute vars)
        (guards.map (Guard.substitute vars)) concrete (node.substitute vars)
      = (context.record field guards concrete node).substitute vars := by
  have hdefinitions : (node.substitute vars).definitions = node.definitions := by
    rw [Node.map_definitions, List.map_id]
  have hname : (field.substitute vars).name = field.name := rfl
  simp only [record, Node.isTypename_map, hdefinitions, hname]
  rw [Node.substitute, Node.map_eq, Node.map_eq]
  simp only [List.map_append, List.map_id]
  rfl

/-- Ways to merge selections, without values and with them in their places. -/
def Follows (descend descend' : Collector D) : Prop :=
  ∀ (selections : List Selection) (types : List String) (guards : List Guard)
    (buckets : List (Bucket D)),
    descend' (substituteSelections vars selections) types (guards.map (Guard.substitute vars))
        (buckets.map (Bucket.substitute vars))
      = (descend selections types guards buckets).map (List.map (Bucket.substitute vars))

variable {vars context} {descend descend' : Collector D}

/-- Merging a field and writing values in can be done in either order. -/
theorem mergeField_substitute (h : Follows vars descend descend') (field : Field)
    (selections : List Selection) (guards : List Guard) (concrete : String) (node : Node D) :
    (context.substitute vars).mergeField descend' (field.substitute vars)
        (substituteSelections vars selections) (guards.map (Guard.substitute vars)) concrete
        (node.substitute vars)
      = (context.mergeField descend field selections guards concrete node).map
        (Node.substitute vars) := by
  have hempty : (substituteSelections vars selections).isEmpty = selections.isEmpty := by
    rw [substituteSelections_eq, List.isEmpty_map]
  have hguards : guards.map (Guard.substitute vars) ++ [Guard.field (field.substitute vars)]
      = (guards ++ [Guard.field field]).map (Guard.substitute vars) :=
    Guard.concat_substitute vars guards (.field field)
  have hschema : (context.substitute vars).schema = context.schema := rfl
  have htype : (field.substitute vars).type = field.type := rfl
  simp only [mergeField, record_substitute, hempty, hguards, hschema, htype]
  split
  · rfl
  · rw [Node.map_buckets, Bucket.foldl_ensure_substitute, h]
    generalize descend selections (context.schema.possibleTypes field.type.inner)
      (guards ++ [Guard.field field]) _ = merged
    cases merged with
    | error => rfl
    | ok buckets =>
      simp only [Except.map, Node.map_eq]

/-- Collecting a selection and writing values in can be done in either order. -/
theorem collectOne_substitute (h : Follows vars descend descend') (types : List String)
    (guards : List Guard) (buckets : List (Bucket D)) (selection : Selection) :
    (context.substitute vars).collectOne descend' types (guards.map (Guard.substitute vars))
        (buckets.map (Bucket.substitute vars)) (selection.substitute vars)
      = (context.collectOne descend types guards buckets selection).map
        (List.map (Bucket.substitute vars)) := by
  cases selection with
  | field field selections =>
    have hempty : (substituteSelections vars selections).isEmpty = selections.isEmpty := by
      rw [substituteSelections_eq, List.isEmpty_map]
    rw [Selection.substitute, collectOne, collectOne]
    refine foldlM_map_eq (List.map_id types).symm ?_ buckets
    intro held concrete
    refine Bucket.update_map (fun nodes => ?_) held
    rw [hempty, Node.ofField_substitute]
    exact Bucket.updateNode_map (mergeField_substitute h field selections guards concrete) nodes
  | inlineFragment fragment selections =>
    have hguards :
        guards.map (Guard.substitute vars) ++ [Guard.inlineFragment (fragment.substitute vars)]
          = (guards ++ [Guard.inlineFragment fragment]).map (Guard.substitute vars) :=
      Guard.concat_substitute vars guards (.inlineFragment fragment)
    rw [Selection.substitute, collectOne, collectOne, hguards, h]
    rfl
  | fragmentSpread spread =>
    have hguards :
        guards.map (Guard.substitute vars) ++ [Guard.fragmentSpread (spread.substitute vars)]
          = (guards ++ [Guard.fragmentSpread spread]).map (Guard.substitute vars) :=
      Guard.concat_substitute vars guards (.fragmentSpread spread)
    have hfound : (context.substitute vars).fragment? (spread.substitute vars).fragment
        = (context.fragment? spread.fragment).map (Fragment.substitute vars) := rfl
    rw [Selection.substitute, collectOne, collectOne, hguards, hfound]
    cases context.fragment? spread.fragment with
    | none => rfl
    | some fragment => exact h ..

variable (vars context) in
/-- Merging selections with the values of variables in their places merges the values into the
places of occurrences, at every depth. -/
theorem collect_substitute (depth : Nat) :
    Follows vars (context.collect depth) ((context.substitute vars).collect depth) := by
  induction depth with
  | zero =>
    intro selections types guards buckets
    rfl
  | succ depth ih =>
    intro selections types guards buckets
    exact foldlM_map_eq (substituteSelections_eq vars selections)
      (fun held selection => collectOne_substitute ih types guards held selection) buckets

end MergeContext

/-- The tree of an operation with the values of variables in their places is the tree of the
operation with them in the places of its occurrences. -/
theorem SelectionTree.ofOperation_substitute (context : MergeContext D) (recursionLimit : Nat)
    (operation : Operation) (rootType : String) :
    ofOperation (context.substitute vars) recursionLimit (operation.substitute vars) rootType
      = (ofOperation context recursionLimit operation rootType).map
        (SelectionTree.map id (List.map (Occurrence.substitute vars))) := by
  have hcollect := MergeContext.collect_substitute vars context (recursionLimit + 1)
    operation.selections [rootType] [] (Node.root rootType : Node D).buckets
  have hroot : (Node.root rootType : Node D).buckets.map (Bucket.substitute vars)
      = (Node.root rootType : Node D).buckets := rfl
  rw [hroot] at hcollect
  rw [ofOperation, ofOperation]
  show Except.map _ ((context.substitute vars).collect (recursionLimit + 1)
    (substituteSelections vars operation.selections) [rootType] ([].map (Guard.substitute vars))
    (Node.root rootType).buckets) = _
  rw [hcollect]
  cases context.collect (recursionLimit + 1) operation.selections [rootType] []
    (Node.root rootType : Node D).buckets with
  | error => rfl
  | ok buckets =>
    simp only [Except.map, SelectionTree.map, Node.map_eq]
    rfl

/-- The tree of an operation of a document with the values of variables in their places, or the
reason why there is none. -/
theorem Registry.selectionTree_substitute {W O C T : Type} (registry : Registry W O C T)
    (document : Document) (name : Option String) :
    registry.selectionTree (document.substitute vars) name
      = (registry.selectionTree document name).map
        (SelectionTree.map id (List.map (Occurrence.substitute vars))) := by
  have hcontext : registry.mergeContext (document.substitute vars)
      = (registry.mergeContext document).substitute vars := by
    have hfragments : (document.substitute vars).fragment?
        = fun name => (document.fragment? name).map (Fragment.substitute vars) := by
      funext name
      exact document.fragment?_substitute vars name
    rw [mergeContext, hfragments]
    rfl
  rw [selectionTree, selectionTree, document.operation?_substitute vars, hcontext]
  cases document.operation? name with
  | none => rfl
  | some operation =>
    have hkind : (operation.substitute vars).kind = operation.kind := rfl
    simp only [Option.map_some, hkind]
    cases registry.schema.root? operation.kind with
    | none => rfl
    | some rootType => exact SelectionTree.ofOperation_substitute vars ..

end

end QueryEngine
