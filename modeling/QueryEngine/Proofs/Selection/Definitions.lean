import QueryEngine.Proofs.Execution.Build
import QueryEngine.Proofs.Selection.Fields
import QueryEngine.Proofs.Selection.Overlap
import QueryEngine.Proofs.Selection.Shuffling

/-!
# One definition for each node

A node collects the definitions that its field selections look up, each of them once. The field
selections were made on interfaces, on unions and in fragments; the lookups are all for the concrete
type of the bucket, and in a document whose fields merge they are all for one name. So a node has
the one definition of its field on the concrete type, which is there because a concrete type has the
fields of what it stands for (`SelectionTree.describedBy_ofOperation`). A catalogue that makes the
definition while the tree is built answers the same one ever after, so nothing changes if it is a
default that was not there before (`selectionTree_describedBy`). Only the root type of queries has
to be an object type, as it is in every schema that is read from a text
(`Schema.isObject_query_of_ofText`): it has fields that no type has that could stand for it.
-/

namespace QueryEngine

variable {D : Type}

/-- Every node below the root, but for those that name types, has exactly one definition: that of
its field on the concrete type in whose bucket it stands. -/
def SelectionTree.DescribedBy (tree : SelectionTree D) (definition? : String → String → Option D) :
    Prop :=
  ∀ node, Node.Within tree.root node → ∀ concrete children,
    node.children? concrete = some children → ∀ child ∈ children, child.isTypename = false →
      ∃ definition, definition? concrete child.name = some definition
        ∧ child.definitions = [definition]

section
variable {context : MergeContext D} {depth : Nat}

/-- A node that is made of field selections which meet well has their one definition. -/
theorem Lists.definitions_eq
    (hsame : ∀ definition, context.sameDefinition definition definition) {concrete : String}
    {found : List Pick} {nodes : List (Node D)} (hmeet : MeetWell context concrete found)
    (h : Lists context depth concrete found nodes) {child : Node D} (hc : child ∈ nodes)
    (hn : child.isTypename = false) :
    child.definitions = (context.definition? concrete child.name).toList := by
  obtain ⟨first, hfirst, hkey, hstarted⟩ := h.exists_first hc
  rw [(represents_iff.1 (h.children child hc)).1.definitions, hn]
  refine context.definitionsOf_eq hsame concrete (h.filter_ne_nil hc) fun pick hp => ?_
  obtain ⟨hp, hpick⟩ := List.mem_filter.1 hp
  rw [hstarted.name]
  exact (hmeet.merge pick hp first hfirst ((eq_of_beq hpick).trans hkey.symm)).1

/-- The nodes of a tree have one definition each if every field of the schema has a definition. -/
theorem SelectionTree.describedBy_ofOperation (context : MergeContext D)
    (hs : context.schema.WellFormed)
    (hq : context.schema.names TypeBody.isObject context.schema.query)
    (hsame : ∀ definition, context.sameDefinition definition definition)
    (hdefined : ∀ type field own, context.schema.field? type field = some own →
      ∃ definition, context.definition? type field = some definition)
    (hf : context.FragmentsFit) {operation : Operation} {rootType : String}
    (hfits : ∀ selection ∈ operation.selections, selection.Fits context.schema rootType)
    (hm : FieldsMerge context.schema context.fragment? operation.selections) {limit : Nat}
    {tree : SelectionTree D} (h : ofOperation context limit operation rootType = .ok tree) :
    tree.DescribedBy context.definition? := by
  intro node hw concrete children hc child hmem hn
  obtain ⟨buckets, rfl, htypes, hlists⟩ :=
    exists_buckets hs.nodup_possibleTypes (Nat.lt_succ_self limit) h
  have hroot : ∀ type, MeetWell context type
      (if type = rootType then context.picks (limit + 1) type operation.selections [] else []) := by
    intro type
    split
    · rename_i htype
      subst htype
      exact meetWell_picks hf (by simp [Schema.satisfies]) hfits hm []
    · exact ⟨fun _ hp => absurd hp List.not_mem_nil, fun _ hp => absurd hp List.not_mem_nil⟩
  obtain ⟨level, -, hlevel, hmeet⟩ := exists_levels (Q := MeetWell context)
    (fun key type hmeet => hmeet.below hf key type) (htypes ▸ List.nodup_singleton rootType)
    hlists hroot hw
  have hlisted : child ∈ Bucket.nodesOf concrete node.buckets :=
    Node.nodesOf_of_children? hc ▸ hmem
  have hdefinitions := (hlevel concrete).definitions_eq hsame (hmeet concrete) hlisted hn
  -- The field was selected on a type that the concrete one stands for, so this one has it, too.
  obtain ⟨first, hfirst, -, hstarted⟩ := (hlevel concrete).exists_first hlisted
  have hfit := (hmeet concrete).fits first hfirst
  obtain ⟨promised, hpromised, -⟩ := hfit.defined
  obtain ⟨own, hown⟩ := hs.exists_field? hq hfit.satisfied
    (hstarted.name ▸ beq_eq_false_iff_ne.1 hn) hpromised
  obtain ⟨definition, hdefinition⟩ := hdefined concrete child.name own (hstarted.name ▸ hown)
  exact ⟨definition, hdefinition, by rw [hdefinitions, hdefinition]; rfl⟩

end

section
variable {W O C T : Type}

/-- A field of the schema has a definition, be it the default. -/
theorem Registry.exists_definition?_of_field? {registry : Registry W O C T} {type field : String}
    {own : FieldDef} (h : registry.schema.field? type field = some own) :
    ∃ definition, registry.definition? type field = some definition := by
  unfold Registry.definition?
  rw [Registry.field_eq_ok_iff.2 h]
  simp only
  split <;> exact ⟨_, rfl⟩

/-- In the selection tree of a valid operation every node below the root has exactly one definition,
but for those that name types: the definition of its field on the concrete type in whose bucket it
stands, however it was reached and however often it was selected. This is so for any registry of the
schema, and for a catalogue that makes defaults while the tree is built, whatever was registered and
looked up before; that one answers the definition of a node for its field ever after, whatever else
is looked up. -/
theorem selectionTree_describedBy {schema : Schema} (hs : schema.WellFormed)
    (hq : schema.names TypeBody.isObject schema.query) {document : Document}
    (hd : document.Fits schema) (hm : document.FieldsMerge schema) (name : Option String) :
    (∀ registry : Registry W O C T, registry.schema = schema → ∀ tree,
        registry.selectionTree document name = .ok tree → tree.DescribedBy registry.definition?)
      ∧ ∀ (calls : List (CatalogueCall W O C T)) (world : W) (configuration : Configuration)
        (catalogue : Catalogue W O C T),
        (CatalogueCall.runAll calls (.ofSchema schema) world).1.withConfiguration configuration
            = .ok catalogue →
          ∀ tree after, catalogue.selectionTree document name = (.ok tree, after) →
            ∀ lookups, tree.DescribedBy fun type field =>
              ((after.lookUpAll lookups).lookUp type field).1 := by
  have hfits : ∀ operation rootType, document.operation? name = some operation →
      schema.root? operation.kind = some rootType →
        operation ∈ document.operations
          ∧ ∀ selection ∈ operation.selections, selection.Fits schema rootType := by
    intro operation rootType ho hr
    have hmem := Document.mem_operations ho
    obtain ⟨root, hroot, hselections⟩ := hd.operations operation hmem
    cases hroot.symm.trans hr
    exact ⟨hmem, hselections⟩
  constructor
  · rintro registry rfl tree h
    obtain ⟨operation, rootType, ho, hr, htree⟩ := Registry.exists_ofOperation h
    obtain ⟨hmem, hselections⟩ := hfits operation rootType ho hr
    exact SelectionTree.describedBy_ofOperation (registry.mergeContext document) hs hq
      (fun definition => beq_self_eq_true definition.id)
      (fun _ _ _ => Registry.exists_definition?_of_field?) hd.fragmentsFit hselections
      (hm operation hmem) htree
  · intro calls world configuration catalogue hc tree after ht lookups
    have hholds := (Catalogue.holds_runAll schema calls world).1.withConfiguration hc
    obtain ⟨hafter, operation, rootType, ho, hr, htree⟩ := Catalogue.exists_ofOperation hholds ht
    obtain ⟨hmem, hselections⟩ := hfits operation rootType ho hr
    obtain ⟨hlater, hextends⟩ := hafter.lookUpAll lookups
    have hschema := hholds.isOf
    subst hschema
    exact SelectionTree.describedBy_ofOperation
      ((catalogue.registry.mergeContext document).answered (after.lookUpAll lookups)) hs hq
      (fun definition => beq_self_eq_true definition.id) (fun _ _ _ => hlater.exists_lookUp)
      hd.fragmentsFit hselections (hm operation hmem) (htree _ hlater hextends)

end

/-- Selections of the document that may meet on one key select one field. -/
theorem animalDocument_fieldsMerge : animalDocument.FieldsMerge animalSchema :=
  Document.fieldsMerge_of_mergesWithin 4 (by decide +kernel)

/-- The trees of the animals' document, for a registry and for a catalogue. -/
theorem selectionTree_describedBy_animalDocument :
    animalSchema.WellFormed ∧ animalSchema.names TypeBody.isObject animalSchema.query
      ∧ animalDocument.Fits animalSchema ∧ animalDocument.FieldsMerge animalSchema
      ∧ (∃ tree, animalRegistry.selectionTree animalDocument none = .ok tree
        ∧ tree.DescribedBy animalRegistry.definition?)
      ∧ ∃ tree after,
        (Catalogue.ofSchema animalSchema : Catalogue Unit Unit Unit Unit).selectionTree
            animalDocument none = (.ok tree, after)
          ∧ tree.DescribedBy fun type field => (after.lookUp type field).1 := by
  have ho : animalDocument.operation? none = animalDocument.operations.head? := rfl
  have hr : animalSchema.root? .query = some "Query" := rfl
  have hq : animalSchema.names TypeBody.isObject animalSchema.query := by decide +kernel
  obtain ⟨hregistry, hcatalogue⟩ := selectionTree_describedBy (W := Unit) (O := Unit) (C := Unit)
    (T := Unit) animalSchema_wellFormed hq animalDocument_fits animalDocument_fieldsMerge none
  refine ⟨animalSchema_wellFormed, hq, animalDocument_fits, animalDocument_fieldsMerge, ?_, ?_⟩
  · obtain ⟨tree, htree⟩ : ∃ tree, animalRegistry.selectionTree animalDocument none = .ok tree :=
      exists_selectionTree ho hr rfl
    exact ⟨tree, htree, hregistry animalRegistry rfl tree htree⟩
  · obtain ⟨tree, after, htree⟩ :=
      Catalogue.exists_selectionTree (Catalogue.holds_ofSchema animalSchema) ho hr rfl
    exact ⟨tree, after, htree, hcatalogue [] () {} _ rfl tree after htree []⟩

/-- The friend of a dog is selected on the interface and in a fragment. Its definition is the second
one that is made, after that of the pet. -/
example : ((Catalogue.ofSchema animalSchema : Catalogue Unit Unit Unit Unit).selectionTree
      animalDocument none).1.toOption.bind (fun tree =>
        (tree.root.follow [⟨"Query", "pet"⟩, ⟨"Dog", "friend"⟩]).map fun node =>
          (node.occurrences.map (·.field.owner), node.definitions.map Definition.id))
    = some (["Animal", "Dog"], [.made 1]) := by
  decide +kernel

end QueryEngine
