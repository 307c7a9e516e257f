import QueryEngine.Execution.Run
import QueryEngine.Proofs.Selection.Bare

/-!
# Named fragments are transparent

A spread of a named fragment and an inline fragment with the same directives, type condition and
selections merge in the same way: `Document.Inlines` relates a document to the one in which every
spread is replaced so, and both have the same selection trees up to the numbers of selections, or
fail with the same error (`selectionTree_inlines`). Every document whose fragments exist and do not
spread each other in a circle can be inlined (`Document.exists_inlines`).
-/

namespace QueryEngine

/-- The second selection is the first one, up to the numbers of selections, with every spread
replaced by an inline fragment that has the directives of the spread, the type condition of the
fragment and the selections of the fragment, with the spreads in these replaced as well. -/
inductive Selection.Inlines (fragment? : String → Option Fragment) : Selection → Selection → Prop
  | field {field field' : Field} {selections selections' : List Selection}
    (hf : field.bare = field'.bare)
    (hs : List.Forall₂ (Inlines fragment?) selections selections') :
    Inlines fragment? (.field field selections) (.field field' selections')
  | inlineFragment {inline inline' : InlineFragment} {selections selections' : List Selection}
    (hc : inline.condition? = inline'.condition?) (hd : inline.directives = inline'.directives)
    (hs : List.Forall₂ (Inlines fragment?) selections selections') :
    Inlines fragment? (.inlineFragment inline selections) (.inlineFragment inline' selections')
  | fragmentSpread {spread : FragmentSpread} {fragment : Fragment} {inline : InlineFragment}
    {selections : List Selection} (hf : fragment? spread.fragment = some fragment)
    (hc : some fragment.condition = inline.condition?)
    (hd : spread.directives = inline.directives)
    (hs : List.Forall₂ (Inlines fragment?) fragment.selections selections) :
    Inlines fragment? (.fragmentSpread spread) (.inlineFragment inline selections)

/-- The second operation is the first one with every spread replaced. -/
structure Operation.Inlines (fragment? : String → Option Fragment)
    (operation operation' : Operation) : Prop where
  kind : operation.kind = operation'.kind
  name : operation.name? = operation'.name?
  selections : List.Forall₂ (Selection.Inlines fragment?) operation.selections
    operation'.selections

/-- The second document has the operations of the first one with every spread replaced. -/
def Document.Inlines (document document' : Document) : Prop :=
  List.Forall₂ (Operation.Inlines document.fragment?) document.operations document'.operations

/-! ## Inlining exists -/

mutual

/-- The names of the fragments that a selection spreads. -/
def Selection.spreadNames : Selection → List String
  | .field _ selections => spreadNamesOf selections
  | .inlineFragment _ selections => spreadNamesOf selections
  | .fragmentSpread spread => [spread.fragment]

/-- The names of the fragments that selections spread. -/
def spreadNamesOf : List Selection → List String
  | [] => []
  | selection :: rest => selection.spreadNames ++ spreadNamesOf rest
end

/-- All fragments that are spread exist, and each spreads only fragments of a lower rank, so none
spreads itself. -/
structure Document.SpreadsEnd (document : Document) (rank : String → Nat) : Prop where
  operations : ∀ operation ∈ document.operations, ∀ name ∈ spreadNamesOf operation.selections,
    (document.fragment? name).isSome
  fragments : ∀ name fragment, document.fragment? name = some fragment →
    ∀ inner ∈ spreadNamesOf fragment.selections,
      (document.fragment? inner).isSome ∧ rank inner < rank name

section
variable {document : Document} {rank : String → Nat}

/-- Finitely many fragments have a bound on their ranks. -/
theorem exists_rank_lt (rank : String → Nat) (names : List String) :
    ∃ bound, ∀ name ∈ names, rank name < bound := by
  induction names with
  | nil => exact ⟨0, fun name h => absurd h (List.not_mem_nil)⟩
  | cons name rest ih =>
    obtain ⟨bound, hbound⟩ := ih
    refine ⟨max bound (rank name + 1), ?_⟩
    intro other ho
    rcases List.mem_cons.1 ho with rfl | hr
    · omega
    · have := hbound other hr
      omega

mutual

/-- A selection can be inlined whose fragments have a rank below a bound. -/
theorem Selection.exists_inlines (h : document.SpreadsEnd rank) (bound : Nat) :
    ∀ selection : Selection, (∀ name ∈ selection.spreadNames,
        (document.fragment? name).isSome ∧ rank name < bound) →
      ∃ selection', Selection.Inlines document.fragment? selection selection'
  | .field field selections, hs => by
    rw [Selection.spreadNames] at hs
    obtain ⟨selections', hi⟩ := exists_forall₂_inlines h bound selections hs
    exact ⟨.field field selections', .field rfl hi⟩
  | .inlineFragment inline selections, hs => by
    rw [Selection.spreadNames] at hs
    obtain ⟨selections', hi⟩ := exists_forall₂_inlines h bound selections hs
    exact ⟨.inlineFragment inline selections', .inlineFragment rfl rfl hi⟩
  | .fragmentSpread spread, hs => by
    obtain ⟨hsome, hlt⟩ := hs spread.fragment (by simp [Selection.spreadNames])
    obtain ⟨fragment, hf⟩ := Option.isSome_iff_exists.1 hsome
    obtain ⟨selections', hi⟩ := exists_forall₂_inlines h (rank spread.fragment)
      fragment.selections (h.fragments _ fragment hf)
    exact ⟨.inlineFragment ⟨spread.id, some fragment.condition, spread.directives⟩ selections',
      .fragmentSpread hf rfl rfl hi⟩
termination_by selection => (bound, sizeOf selection)

/-- A selection set whose spreads rank below the bound has an inlining, selection by selection. -/
theorem exists_forall₂_inlines (h : document.SpreadsEnd rank) (bound : Nat) :
    ∀ selections : List Selection, (∀ name ∈ spreadNamesOf selections,
        (document.fragment? name).isSome ∧ rank name < bound) →
      ∃ selections', List.Forall₂ (Selection.Inlines document.fragment?) selections selections'
  | [], _ => ⟨[], .nil⟩
  | selection :: rest, hs => by
    rw [spreadNamesOf] at hs
    obtain ⟨selection', hi⟩ := Selection.exists_inlines h bound selection fun name hn =>
      hs name (List.mem_append_left _ hn)
    obtain ⟨rest', hr⟩ := exists_forall₂_inlines h bound rest fun name hn =>
      hs name (List.mem_append_right _ hn)
    exact ⟨selection' :: rest', .cons hi hr⟩
termination_by selections => (bound, sizeOf selections)
end

/-- A document can be inlined whose fragments exist and do not spread each other in a circle. -/
theorem Document.exists_inlines (h : document.SpreadsEnd rank) :
    ∃ document', document.Inlines document' := by
  suffices hs : ∀ operations : List Operation, (∀ operation ∈ operations,
      ∀ name ∈ spreadNamesOf operation.selections, (document.fragment? name).isSome) →
      ∃ operations', List.Forall₂ (Operation.Inlines document.fragment?) operations operations' by
    obtain ⟨operations', ho⟩ := hs document.operations h.operations
    exact ⟨⟨operations', []⟩, ho⟩
  intro operations hdefined
  induction operations with
  | nil => exact ⟨[], .nil⟩
  | cons operation rest ih =>
    obtain ⟨rest', hr⟩ := ih fun other ho => hdefined other (List.mem_cons_of_mem _ ho)
    have hspread := hdefined operation (List.mem_cons_self ..)
    obtain ⟨bound, hbound⟩ := exists_rank_lt rank (spreadNamesOf operation.selections)
    obtain ⟨selections', hi⟩ := exists_forall₂_inlines h bound operation.selections
      fun name hn => ⟨hspread name hn, hbound name hn⟩
    exact ⟨⟨operation.kind, operation.name?, selections'⟩ :: rest', .cons ⟨rfl, rfl, hi⟩ hr⟩

end

/-! ## Merging -/

variable {D : Type}

namespace Field

/-- What of a field is left without its number. -/
theorem bare_eq_iff {a b : Field} : a.bare = b.bare ↔ a.alias? = b.alias? ∧ a.name = b.name
    ∧ a.arguments = b.arguments ∧ a.directives = b.directives ∧ a.owner = b.owner
    ∧ a.type = b.type := by
  simp [bare]

/-- The number of a field is no part of its key. -/
theorem key_of_bare_eq {a b : Field} (h : a.bare = b.bare) : a.key = b.key := by
  obtain ⟨halias, hname, -⟩ := bare_eq_iff.1 h
  rw [key, key, halias, hname]

end Field

/-- A fresh node does not hold the number of its field. -/
theorem Node.bare_ofField_congr {field field' : Field} (hf : field.bare = field'.bare)
    (isComposite : Bool) :
    (ofField field isComposite : Node D).bare = (ofField field' isComposite).bare := by
  obtain ⟨-, hname, -, -, howner, htype⟩ := Field.bare_eq_iff.1 hf
  exact bare_congr (Field.key_of_bare_eq hf) hname howner htype rfl rfl rfl rfl

namespace MergeContext

variable {context : MergeContext D} {other : String → Option Fragment}

/-- Recording a field does not look at numbers. -/
theorem bare_record_congr (context : MergeContext D) (other : String → Option Fragment)
    {field field' : Field} (hf : field.bare = field'.bare)
    {guards guards' : List Guard} (hg : guards.map Guard.bare = guards'.map Guard.bare)
    (concrete : String) {node node' : Node D} (hn : node.bare = node'.bare) :
    (context.record field guards concrete node).bare
      = (({ context with fragment? := other } : MergeContext D).record field' guards' concrete
        node').bare := by
  obtain ⟨-, hname, -⟩ := Field.bare_eq_iff.1 hf
  have hkey := congrArg Node.key hn
  have hnode := congrArg Node.name hn
  have howner := congrArg Node.owner hn
  have htype := congrArg Node.type hn
  have hcomposite := congrArg Node.isComposite hn
  have hdefinitions := congrArg Node.definitions hn
  have htypename := congrArg Node.isTypename hn
  have hoccurrences := congrArg Node.occurrences hn
  have hbuckets := congrArg Node.buckets hn
  simp only [Node.bare_key, Node.bare_name, Node.bare_owner, Node.bare_type, Node.bare_isComposite,
    Node.bare_definitions, Node.isTypename_bare, Node.bare_occurrences, Node.bare_buckets] at *
  refine Node.bare_congr hkey hnode howner htype hcomposite ?_ ?_ hbuckets
  · simp only [record, htypename, hdefinitions, hname]
    rfl
  · simp [record, hoccurrences, Occurrence.bare, hf, hg]

/-- Ways to merge a selection set that agree on inlined selections. -/
def CollectorsAgree (fragment? : String → Option Fragment) (descend descend' : Collector D) :
    Prop :=
  ∀ {selections selections' : List Selection} (types : List String) {guards guards' : List Guard}
    {buckets buckets' : List (Bucket D)},
    List.Forall₂ (Selection.Inlines fragment?) selections selections' →
    guards.map Guard.bare = guards'.map Guard.bare →
    buckets.map Bucket.bare = buckets'.map Bucket.bare →
      (descend selections types guards buckets).map (List.map Bucket.bare)
        = (descend' selections' types guards' buckets').map (List.map Bucket.bare)

section
variable {descend descend' : Collector D}
  (h : CollectorsAgree context.fragment? descend descend')
include h

/-- Merging a field does not look at numbers, nor at how fragments are spread below it. -/
theorem map_mergeField_congr {field field' : Field} (hf : field.bare = field'.bare)
    {selections selections' : List Selection}
    (hs : List.Forall₂ (Selection.Inlines context.fragment?) selections selections')
    {guards guards' : List Guard} (hg : guards.map Guard.bare = guards'.map Guard.bare)
    (concrete : String) {node node' : Node D} (hn : node.bare = node'.bare) :
    (context.mergeField descend field selections guards concrete node).map Node.bare
      = (({ context with fragment? := other } : MergeContext D).mergeField descend' field'
        selections' guards' concrete node').map Node.bare := by
  have hrecord := bare_record_congr context other hf hg concrete hn
  have hempty : selections.isEmpty = selections'.isEmpty := by
    cases hs <;> rfl
  obtain ⟨-, -, -, hdirectives, -, htype⟩ := Field.bare_eq_iff.1 hf
  have hguards : (guards ++ [Guard.field field]).map Guard.bare
      = (guards' ++ [Guard.field field']).map Guard.bare := by
    simp [hg, Guard.bare_eq_iff, Guard.directives, hdirectives]
  simp only [mergeField, hempty, htype]
  split
  · exact congrArg Except.ok hrecord
  · have hbuckets := congrArg Node.buckets hrecord
    rw [Node.bare_buckets, Node.bare_buckets] at hbuckets
    refine map_map_congr (h _ hs hguards (Bucket.map_foldl_ensure_congr _ hbuckets)) ?_
    intro a b hab
    rw [Node.bare_eq] at hrecord ⊢
    rw [Node.bare_eq] at hrecord ⊢
    simp_all

/-- Merging a selection comes to the same as merging it inlined. -/
theorem map_collectOne_congr {selection selection' : Selection}
    (hi : Selection.Inlines context.fragment? selection selection') (types : List String)
    {guards guards' : List Guard} (hg : guards.map Guard.bare = guards'.map Guard.bare)
    {buckets buckets' : List (Bucket D)}
    (hb : buckets.map Bucket.bare = buckets'.map Bucket.bare) :
    (context.collectOne descend types guards buckets selection).map (List.map Bucket.bare)
      = (({ context with fragment? := other } : MergeContext D).collectOne descend' types guards'
        buckets' selection').map (List.map Bucket.bare) := by
  cases hi with
  | @field field field' selections selections' hf hs =>
    have hempty : selections.isEmpty = selections'.isEmpty := by
      cases hs <;> rfl
    have hsame : List.Forall₂ Eq types types := List.forall₂_refl types
    refine map_foldlM_congr ?_ hsame hb
    intro concrete _ htype held held' hheld
    subst htype
    refine Bucket.map_update_congr ?_ hheld
    intro nodes nodes' hnodes
    rw [Field.key_of_bare_eq hf, hempty]
    refine Bucket.map_updateNode_congr (Node.bare_ofField_congr hf _) ?_ hnodes
    intro node node' hnode
    exact map_mergeField_congr h hf hs hg concrete hnode
  | @inlineFragment inline inline' selections selections' hc hd hs =>
    have hguards : (guards ++ [Guard.inlineFragment inline]).map Guard.bare
        = (guards' ++ [Guard.inlineFragment inline']).map Guard.bare := by
      simp [hg, Guard.bare_eq_iff, Guard.directives, hd]
    simp only [collectOne, hc]
    exact h _ hs hguards hb
  | @fragmentSpread spread fragment inline selections hf hc hd hs =>
    have hguards : (guards ++ [Guard.fragmentSpread spread]).map Guard.bare
        = (guards' ++ [Guard.inlineFragment inline]).map Guard.bare := by
      simp [hg, Guard.bare_eq_iff, Guard.directives, hd]
    simp only [collectOne, hf, ← hc]
    exact h _ hs hguards hb

end

/-- Merging a selection set comes to the same as merging it inlined, at every depth. -/
theorem collectorsAgree_collect (context : MergeContext D) (other : String → Option Fragment)
    (depth : Nat) :
    CollectorsAgree context.fragment? (context.collect depth)
      (({ context with fragment? := other } : MergeContext D).collect depth) := by
  induction depth with
  | zero =>
    intro selections selections' types guards guards' buckets buckets' hs hg hb
    rfl
  | succ depth ih =>
    intro selections selections' types guards guards' buckets buckets' hs hg hb
    refine map_foldlM_congr ?_ hs hb
    intro selection selection' hi held held' hheld
    exact map_collectOne_congr ih hi types hg hheld

end MergeContext

/-! ## Trees -/

/-- The tree of an operation and the tree of the inlined operation are the same without numbers, or
both operations have none for the same reason. -/
theorem SelectionTree.ofOperation_inlines {context : MergeContext D}
    {other : String → Option Fragment} {operation operation' : Operation}
    (h : operation.Inlines context.fragment? operation') (recursionLimit : Nat)
    (rootType : String) :
    (ofOperation context recursionLimit operation rootType).map SelectionTree.bare
      = (ofOperation { context with fragment? := other } recursionLimit operation' rootType).map
        SelectionTree.bare := by
  have hcollect := context.collectorsAgree_collect other (recursionLimit + 1)
    [rootType] h.selections (rfl : ([] : List Guard).map Guard.bare = _)
    (rfl : (Node.root rootType : Node D).buckets.map Bucket.bare = _)
  refine map_map_congr hcollect ?_
  intro buckets buckets' hb
  simp only [SelectionTree.bare, Node.bare_eq, h.kind, hb]

/-- Members that are related are found in both lists or in none. -/
theorem rel_find? {α β : Type} {related : α → β → Prop} {p : α → Bool} {q : β → Bool}
    (hp : ∀ a b, related a b → p a = q b) {xs : List α} {ys : List β}
    (h : List.Forall₂ related xs ys) : Option.Rel related (xs.find? p) (ys.find? q) := by
  induction h with
  | nil => exact .none
  | @cons x y xs ys hxy _ ih =>
    rw [List.find?_cons, List.find?_cons, hp x y hxy]
    cases q y with
    | true => exact .some hxy
    | false => exact ih

/-- The operation of a name is found in both documents or in none. -/
theorem Document.rel_operation? {related : Operation → Operation → Prop}
    (hname : ∀ operation operation', related operation operation' →
      operation.name? = operation'.name?) {document document' : Document}
    (h : List.Forall₂ related document.operations document'.operations) (name : Option String) :
    Option.Rel related (document.operation? name) (document'.operation? name) := by
  cases name with
  | some name =>
    refine rel_find? ?_ h
    intro operation operation' hi
    rw [hname _ _ hi]
  | none =>
    unfold Document.operation?
    revert h
    generalize document.operations = operations
    generalize document'.operations = operations'
    intro h
    cases h with
    | nil => exact .none
    | cons hi hr =>
      cases hr with
      | nil => exact .some hi
      | cons _ _ => exact .none

/-- Documents have selection trees that are related, or none for the same reason, if that is so for
the trees of their operations. -/
theorem Registry.selectionTree_correspond {W O C T : Type} (registry : Registry W O C T)
    {related : Operation → Operation → Prop}
    (hname : ∀ operation operation', related operation operation' →
      operation.name? = operation'.name?)
    (hkind : ∀ operation operation', related operation operation' →
      operation.kind = operation'.kind)
    {document document' : Document}
    {R : SelectionTree (Definition W O C T) → SelectionTree (Definition W O C T) → Prop}
    {name : Option String}
    (htree : ∀ operation operation' rootType, document.operation? name = some operation →
      registry.schema.root? operation.kind = some rootType → related operation operation' →
      Correspond R
        (SelectionTree.ofOperation (registry.mergeContext document)
          registry.configuration.recursionLimit operation rootType)
        (SelectionTree.ofOperation (registry.mergeContext document')
          registry.configuration.recursionLimit operation' rootType))
    (h : List.Forall₂ related document.operations document'.operations) :
    Correspond R (registry.selectionTree document name)
      (registry.selectionTree document' name) := by
  have hrel := Document.rel_operation? hname h name
  unfold selectionTree
  cases ho : document.operation? name with
  | none =>
    rw [ho] at hrel
    cases ho' : document'.operation? name with
    | none => exact .error _
    | some operation' =>
      rw [ho'] at hrel
      cases hrel
  | some operation =>
    rw [ho] at hrel
    cases ho' : document'.operation? name with
    | none =>
      rw [ho'] at hrel
      cases hrel
    | some operation' =>
      rw [ho'] at hrel
      cases hrel with
      | some hi =>
        have hkinds := hkind _ _ hi
        simp only [← hkinds]
        cases hr : registry.schema.root? operation.kind with
        | none => exact .error _
        | some rootType => exact htree _ _ rootType ho hr hi

/-- Named fragments are transparent: a document and the document in which every spread is replaced
by an inline fragment have the same trees up to numbers, or none for the same reason. -/
theorem Registry.selectionTree_inlines {W O C T : Type} (registry : Registry W O C T)
    {document document' : Document} (h : document.Inlines document') (name : Option String) :
    (registry.selectionTree document name).map SelectionTree.bare
      = (registry.selectionTree document' name).map SelectionTree.bare := by
  refine correspond_iff_map_eq.1 (registry.selectionTree_correspond (fun _ _ hi => hi.name)
    (fun _ _ hi => hi.kind) ?_ h)
  intro operation operation' rootType _ _ hi
  exact correspond_iff_map_eq.2 (SelectionTree.ofOperation_inlines hi _ rootType)

end QueryEngine
