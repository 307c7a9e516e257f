import QueryEngine.Proofs.Selection.Chains

/-!
# Nodes and the fields that they are made of

Every node of a selection tree below the root stands in the bucket of a concrete type, and is made
of field selections of the document that apply to that type. Its name and the literals of its
arguments are those of the first of them, and its definition is that of the field on the concrete
type (`Node.Selects`). So what holds of every field that the document selects (`Document.AllFields`)
holds of the fields that the nodes select (`selectionTree_selects`).
-/

namespace QueryEngine

/-! ## What holds of every field -/

/-- The fields of the selection have the property, those of nested selections too. -/
inductive Selection.AllFields (P : Field → Prop) : Selection → Prop
  | field {field : Field} {inner : List Selection} (own : P field)
    (below : ∀ selection ∈ inner, AllFields P selection) : AllFields P (.field field inner)
  | inlineFragment {fragment : InlineFragment} {inner : List Selection}
    (below : ∀ selection ∈ inner, AllFields P selection) :
    AllFields P (.inlineFragment fragment inner)
  | fragmentSpread {spread : FragmentSpread} : AllFields P (.fragmentSpread spread)

/-- All fields that are selected in the document have the property. -/
structure Document.AllFields (P : Field → Prop) (document : Document) : Prop where
  operations : ∀ operation ∈ document.operations,
    ∀ selection ∈ operation.selections, selection.AllFields P
  fragments : ∀ fragment ∈ document.fragments,
    ∀ selection ∈ fragment.selections, selection.AllFields P

/-- The field has the property, and so have the fields of its sub-selection. -/
structure Pick.AllFields (P : Field → Prop) (pick : Pick) : Prop where
  own : P pick.field
  below : ∀ selection ∈ pick.selections, selection.AllFields P

variable {D : Type} {context : MergeContext D} {P : Field → Prop}

/-- The picks of a selection set have the property if its fields and those of all fragments have
it. -/
theorem allFields_of_mem_picks
    (hf : ∀ name fragment, context.fragment? name = some fragment →
      ∀ selection ∈ fragment.selections, selection.AllFields P)
    {depth : Nat} {concrete : String} {selections : List Selection}
    (hs : ∀ selection ∈ selections, selection.AllFields P) {guards : List Guard} {pick : Pick}
    (h : pick ∈ context.picks depth concrete selections guards) : pick.AllFields P := by
  obtain ⟨around, hs, hm⟩ : ∃ around : List Selection,
      (∀ selection ∈ around, selection.AllFields P)
      ∧ .field pick.field pick.selections ∈ around := by
    refine exists_mem_of_mem_picks ?_ (fun _ _ hfragment _ => hf _ _ hfragment) hs h
    intro selections fragment inner hs hm _
    cases hs _ hm with
    | inlineFragment below => exact below
  cases hs _ hm with
  | field own below => exact ⟨own, below⟩

/-- The picks below picks have the property, too. -/
theorem allFields_of_mem_below
    (hf : ∀ name fragment, context.fragment? name = some fragment →
      ∀ selection ∈ fragment.selections, selection.AllFields P)
    {depth : Nat} {found : List Pick} (h : ∀ pick ∈ found, pick.AllFields P) {type : String}
    {pick : Pick} (hp : pick ∈ context.below depth found type) : pick.AllFields P := by
  obtain ⟨outer, ho, hp⟩ := List.mem_flatMap.1 hp
  split at hp
  · exact allFields_of_mem_picks hf (h outer ho).below hp
  · cases hp

/-! ## Nodes -/

/-- The definition of the first field selection comes first. -/
theorem MergeContext.head?_definitionsOf {concrete : String} {first : Pick} {definition : D}
    (h : context.definition? concrete first.field.name = some definition) (rest : List Pick) :
    (context.definitionsOf concrete (first :: rest)).head? = some definition := by
  induction rest using List.reverseRecOn with
  | nil => simp [definitionsOf, h, addDefinition]
  | append_singleton rest last ih =>
    rw [← List.cons_append, definitionsOf_concat]
    cases context.definition? concrete last.field.name with
    | none => exact ih
    | some other =>
      rw [Option.elim_some, addDefinition]
      split
      · exact ih
      · rw [List.head?_append, ih, Option.some_or]

/-- A node for objects of a concrete type has its name and its arguments from a field selection,
which was made on a type that the concrete one stands for. Its definition is that of the field on
the concrete type. -/
structure Node.Selects (context : MergeContext D) (concrete : String) (field : Field)
    (node : Node D) : Prop where
  satisfied : context.schema.satisfies concrete field.owner
  defined : ∃ definition, context.schema.field? field.owner field.name = some definition
  name : node.name = field.name
  arguments : node.arguments = field.arguments
  definition : ∀ definition, node.isTypename = false →
    context.definition? concrete node.name = some definition → node.definition? = some definition

/-- A node that is made of field selections is so of the first. -/
theorem Represents.selects {depth : Nat} {concrete : String} {first : Pick} {rest : List Pick}
    {node : Node D} (h : Represents context depth concrete (first :: rest) node)
    (hf : first.Fits context.schema concrete) : node.Selects context concrete first.field := by
  have own := (represents_iff.1 h).1
  have data := own.data first rfl
  obtain ⟨definition, hdefinition, -⟩ := hf.defined
  refine ⟨hf.satisfied, ⟨definition, hdefinition⟩, data.name, ?_, fun definition hn hd => ?_⟩
  · rw [Node.arguments, own.occurrences]
    rfl
  · rw [Node.definition?, own.definitions, hn]
    exact MergeContext.head?_definitionsOf (data.name ▸ hd) rest

variable {W O C T : Type} {registry : Registry W O C T} {document : Document}
  {name : Option String} {tree : SelectionTree (Definition W O C T)}

/-- A selection tree is that of an operation on the root type of its kind. -/
theorem Registry.exists_ofOperation (h : registry.selectionTree document name = .ok tree) :
    ∃ operation rootType, document.operation? name = some operation
      ∧ registry.schema.root? operation.kind = some rootType
      ∧ SelectionTree.ofOperation (registry.mergeContext document)
        registry.configuration.recursionLimit operation rootType = .ok tree := by
  unfold Registry.selectionTree at h
  split at h
  · cases h
  · split at h
    · cases h
    · exact ⟨_, _, ‹_›, ‹_›, h⟩

/-- Every node of a tree selects a field of the document. -/
theorem selectionTree_selects (hs : registry.schema.WellFormed) (hd : document.Fits registry.schema)
    (ha : document.AllFields P) (h : registry.selectionTree document name = .ok tree)
    {node child : Node (Definition W O C T)} (hw : Node.Within tree.root node) {concrete : String}
    {children : List (Node (Definition W O C T))} (hc : node.children? concrete = some children)
    (hm : child ∈ children) :
    ∃ field, P field ∧ child.Selects (registry.mergeContext document) concrete field := by
  obtain ⟨operation, rootType, ho, hr, htree⟩ := Registry.exists_ofOperation h
  have hfragments : ∀ name fragment,
      (registry.mergeContext document).fragment? name = some fragment →
        ∀ selection ∈ fragment.selections, selection.AllFields P :=
    fun _ fragment hf => ha.fragments fragment (List.mem_of_find?_eq_some hf)
  have hspans := spans_root hs h ho hr (Nat.lt_succ_self _)
  have hstands := stands_root (registry.configuration.recursionLimit + 1) hd ho hr fun _ => true
  have hroot : (tree.root.buckets.map Bucket.type).Nodup := by
    obtain ⟨buckets, rfl, htypes, -⟩ :=
      SelectionTree.exists_buckets hs.nodup_possibleTypes (Nat.lt_succ_self _) htree
    exact htypes ▸ List.nodup_singleton rootType
  -- All picks fit the schema and have the property: those of the operation, and those below others.
  obtain ⟨level, -, hlevel, hall⟩ := exists_lists
    (Q := fun type pick => pick.Fits registry.schema type ∧ pick.AllFields P)
    (fun hfound hp => ⟨fits_of_mem_below hd.fragmentsFit (fun outer ho => (hfound outer ho).1) hp,
      allFields_of_mem_below hfragments (fun outer ho => (hfound outer ho).2) hp⟩)
    hroot hspans
    (fun type pick hp => ⟨hstands.fits type pick hp, by
      split at hp
      · exact allFields_of_mem_picks hfragments
          (ha.operations operation (Document.mem_operations ho)) hp
      · cases hp⟩) hw
  have hlisted : child ∈ Bucket.nodesOf concrete node.buckets := Node.nodesOf_of_children? hc ▸ hm
  cases hfound : (level concrete).filter (·.key == child.key) with
  | nil => exact absurd hfound ((hlevel concrete).filter_ne_nil hlisted)
  | cons first rest =>
    have hfirst : first ∈ level concrete :=
      List.mem_of_mem_filter (hfound ▸ List.mem_cons_self ..)
    have hrepresents := (hlevel concrete).children child hlisted
    rw [hfound] at hrepresents
    obtain ⟨hfits, hfields⟩ := hall concrete first hfirst
    exact ⟨first.field, hfields.own, hrepresents.selects hfits⟩

end QueryEngine
