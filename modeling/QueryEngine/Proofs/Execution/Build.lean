import QueryEngine.Execution.Build
import QueryEngine.Proofs.Schema.Catalogue
import QueryEngine.Proofs.Selection.Nesting

/-!
# Trees that are built while defaults are made

While a tree is built, its lookups make defaults, so the catalogue is another one at the end than at
the start. No lookup can tell: what it was answered is what the catalogue answers for the field ever
after, as long as nothing is registered (`Catalogue.Holds.lookUp_of_extends`). So a build comes to
what merging comes to with the definitions that the catalogue has afterwards (`Building.Reads`), one
function after the other, and `Catalogue.exists_ofOperation` says so of the tree.
-/

namespace QueryEngine

open Catalogue

variable {W O C T : Type} {schema : Schema} {done : List (Registration W O C T)} {α β : Type}

namespace Catalogue

/-- A catalogue has all that it has itself. -/
theorem Extends.refl (catalogue : Catalogue W O C T) : catalogue.Extends catalogue :=
  fun _ _ h => h

/-- What is kept at first and kept after that is kept throughout. -/
theorem Extends.trans {catalogue later last : Catalogue W O C T} (h : catalogue.Extends later)
    (hl : later.Extends last) : catalogue.Extends last :=
  fun key definition hd => hl key definition (h key definition hd)

end Catalogue

/-- The catalogue after lookups, from the first to the last. -/
def Catalogue.lookUpAll (catalogue : Catalogue W O C T) (lookups : List (String × String)) :
    Catalogue W O C T :=
  lookups.foldl (fun catalogue (type, field) => (catalogue.lookUp type field).2) catalogue

/-- Lookups keep what is registered and the defaults that there are. -/
theorem Catalogue.Holds.lookUpAll {catalogue : Catalogue W O C T}
    (h : Holds schema done catalogue) (lookups : List (String × String)) :
    Holds schema done (catalogue.lookUpAll lookups)
      ∧ catalogue.Extends (catalogue.lookUpAll lookups) := by
  induction lookups generalizing catalogue with
  | nil => exact ⟨h, .refl catalogue⟩
  | cons first rest ih =>
    obtain ⟨hholds, hextends⟩ := ih (h.lookUp first.1 first.2)
    exact ⟨hholds, (extends_lookUp catalogue first.1 first.2).trans hextends⟩

/-- Merging with the definitions that the catalogue answers. -/
def MergeContext.answered (context : MergeContext (Definition W O C T))
    (catalogue : Catalogue W O C T) : MergeContext (Definition W O C T) :=
  { context with definition? := fun type field => (catalogue.lookUp type field).1 }

namespace Building

/-- The part of a build leaves what is registered as it is and keeps the defaults that there are.
Its outcome is what the function has for the catalogue that it leaves, and for every later one that
has the same registrations. -/
def Reads (schema : Schema) (done : List (Registration W O C T)) (part : Building W O C T α)
    (outcome : Catalogue W O C T → Except BuildError α) : Prop :=
  ∀ catalogue, Holds schema done catalogue → ∃ result after, part catalogue = (result, after)
    ∧ Holds schema done after ∧ catalogue.Extends after
    ∧ ∀ later, Holds schema done later → after.Extends later → outcome later = result

/-- A part that goes well is followed by the next one, in the catalogue it leaves. -/
theorem bind_of_ok {part : Building W O C T α} {next : α → Building W O C T β}
    {catalogue after : Catalogue W O C T} {a : α} (h : part catalogue = (.ok a, after)) :
    (part >>= next) catalogue = next a after := by
  simp only [Bind.bind, ExceptT.bind, ExceptT.mk, StateT.bind, h]
  rfl

/-- A part that fails ends the build, in the catalogue it leaves. -/
theorem bind_of_error {part : Building W O C T α} {next : α → Building W O C T β}
    {catalogue after : Catalogue W O C T} {error : BuildError}
    (h : part catalogue = (.error error, after)) :
    (part >>= next) catalogue = (.error error, after) := by
  simp only [Bind.bind, ExceptT.bind, ExceptT.mk, StateT.bind, h]
  rfl

namespace Reads

/-- A value that is there already reads nothing. -/
theorem pure (a : α) :
    Reads schema done (Pure.pure a : Building W O C T α) fun _ => .ok a :=
  fun catalogue h => ⟨_, catalogue, rfl, h, .refl catalogue, fun _ _ _ => rfl⟩

/-- An error that is there already reads nothing. -/
theorem throw (error : BuildError) :
    Reads schema done (MonadExcept.throw error : Building W O C T α) fun _ => .error error :=
  fun catalogue h => ⟨_, catalogue, rfl, h, .refl catalogue, fun _ _ _ => rfl⟩

/-- A lookup comes to what the catalogue it leaves answers for the field. -/
theorem lookUp (type field : String) :
    Reads schema done (Building.lookUp type field : Building W O C T _)
      fun later => .ok (later.lookUp type field).1 :=
  fun catalogue h => ⟨_, _, rfl, h.lookUp type field, extends_lookUp catalogue type field,
    fun _ hl he => congrArg Except.ok (h.lookUp_of_extends hl he)⟩

variable {part : Building W O C T α} {outcome : Catalogue W O C T → Except BuildError α}

/-- What a part comes to may be said in another way. -/
theorem congr {other : Catalogue W O C T → Except BuildError α}
    (h : Reads schema done part outcome) (he : ∀ later, outcome later = other later) :
    Reads schema done part other :=
  funext he ▸ h

/-- Two parts in a row come to what their outcomes in a row come to, all in the last catalogue. -/
theorem bind {next : α → Building W O C T β} (h : Reads schema done part outcome)
    (nextOutcome : α → Catalogue W O C T → Except BuildError β)
    (hn : ∀ a, Reads schema done (next a) (nextOutcome a)) :
    Reads schema done (part >>= next) fun later => (outcome later).bind (nextOutcome · later) := by
  intro catalogue hc
  obtain ⟨result, between, hpart, hbetween, hextends, houtcome⟩ := h catalogue hc
  cases result with
  | error error =>
    refine ⟨_, between, bind_of_error hpart, hbetween, hextends, fun later hl he => ?_⟩
    show (outcome later).bind _ = _
    rw [houtcome later hl he]
    rfl
  | ok a =>
    obtain ⟨last, after, hnext, hafter, hextends', hlast⟩ := hn a between hbetween
    refine ⟨last, after, (bind_of_ok hpart).trans hnext, hafter, hextends.trans hextends',
      fun later hl he => ?_⟩
    show (outcome later).bind _ = _
    rw [houtcome later hl (hextends'.trans he)]
    exact hlast later hl he

/-- Mapping what a part comes to maps its outcome. -/
theorem map (f : α → β) (h : Reads schema done part outcome) :
    Reads schema done (f <$> part) fun later => (outcome later).map f := by
  refine (h.bind _ fun a => .pure (f a)).congr fun later => ?_
  cases outcome later <;> rfl

/-- Steps that read what they read do so one after the other. -/
theorem foldlM {γ : Type} {step : β → γ → Building W O C T β}
    {outcome : β → γ → Catalogue W O C T → Except BuildError β}
    (h : ∀ b c, Reads schema done (step b c) (outcome b c)) (items : List γ) (start : β) :
    Reads schema done (items.foldlM step start)
      fun later => items.foldlM (fun b c => outcome b c later) start := by
  induction items generalizing start with
  | nil => exact .pure start
  | cons item rest ih => exact (h start item).bind _ ih

end Reads

/-! ## Merging -/

variable {context : MergeContext (Definition W O C T)}

/-- Changing the node of a key reads what the change of a node reads. -/
theorem reads_updateNode (key : String) (fresh : Node (Definition W O C T))
    {change : Node (Definition W O C T) → Building W O C T (Node (Definition W O C T))}
    {outcome : Node (Definition W O C T) → Catalogue W O C T →
      Except BuildError (Node (Definition W O C T))}
    (h : ∀ node, Reads schema done (change node) (outcome node))
    (nodes : List (Node (Definition W O C T))) :
    Reads schema done (updateNode key fresh change nodes)
      fun later => Bucket.updateNode key fresh (outcome · later) nodes := by
  induction nodes with
  | nil => exact (h fresh).map _
  | cons node rest ih =>
    simp only [updateNode, Bucket.updateNode]
    split
    · exact (h node).map _
    · exact ih.map _

/-- Changing the bucket for a type reads what the change of its nodes reads. -/
theorem reads_updateBucket (type : String)
    {change : List (Node (Definition W O C T)) →
      Building W O C T (List (Node (Definition W O C T)))}
    {outcome : List (Node (Definition W O C T)) → Catalogue W O C T →
      Except BuildError (List (Node (Definition W O C T)))}
    (h : ∀ nodes, Reads schema done (change nodes) (outcome nodes))
    (buckets : List (Bucket (Definition W O C T))) :
    Reads schema done (updateBucket type change buckets)
      fun later => Bucket.update type (outcome · later) buckets := by
  induction buckets with
  | nil => exact (h []).map _
  | cons bucket rest ih =>
    simp only [updateBucket, Bucket.update]
    split
    · exact (h bucket.nodes).map _
    · exact ih.map _

/-- Recording a field in a node reads its definition, if it has one. -/
theorem reads_record (field : Field) (guards : List Guard) (concrete : String)
    (node : Node (Definition W O C T)) :
    Reads schema done (record context field guards concrete node)
      fun later => .ok ((context.answered later).record field guards concrete node) := by
  simp only [record, MergeContext.record, Node.isTypename]
  by_cases htypename : node.name == "__typename"
  · simp only [htypename, if_true]
    exact .pure _
  · simp only [htypename, Bool.false_eq_true, if_false]
    refine ((Reads.lookUp concrete field.name).bind (fun found _ => .ok { node with
      occurrences := node.occurrences ++ [Occurrence.mk field guards]
      definitions := found.elim node.definitions (context.addDefinition node.definitions) })
      fun found => ?_).congr fun later => ?_
    · cases found <;> exact .pure _
    · simp only [MergeContext.answered, Except.bind]
      cases (later.lookUp concrete field.name).1 <;> rfl

/-- Merging a field reads its definition and what is read below it. -/
theorem reads_mergeField {descend : LookingCollector W O C T}
    {outcome : Catalogue W O C T → Collector (Definition W O C T)}
    (h : ∀ selections types guards buckets,
      Reads schema done (descend selections types guards buckets)
        fun later => outcome later selections types guards buckets)
    (field : Field) (selections : List Selection) (guards : List Guard) (concrete : String)
    (node : Node (Definition W O C T)) :
    Reads schema done (mergeField context descend field selections guards concrete node)
      fun later => (context.answered later).mergeField (outcome later) field selections guards
        concrete node := by
  refine (reads_record field guards concrete node).bind (fun node later =>
    if selections.isEmpty then .ok node
    else (outcome later selections (context.schema.possibleTypes field.type.inner)
      (guards ++ [.field field])
      ((context.schema.possibleTypes field.type.inner).foldl
        (fun buckets type => Bucket.ensure type buckets) node.buckets)).map
          fun buckets => { node with buckets }) fun node => ?_
  split
  · exact .pure node
  · exact (h _ _ _ _).map _

/-- Collecting a selection reads what its fields read. -/
theorem reads_collectOne {descend : LookingCollector W O C T}
    {outcome : Catalogue W O C T → Collector (Definition W O C T)}
    (h : ∀ selections types guards buckets,
      Reads schema done (descend selections types guards buckets)
        fun later => outcome later selections types guards buckets)
    (types : List String) (guards : List Guard) (buckets : List (Bucket (Definition W O C T)))
    (selection : Selection) :
    Reads schema done (collectOne context descend types guards buckets selection)
      fun later => (context.answered later).collectOne (outcome later) types guards buckets
        selection := by
  cases selection with
  | field field selections =>
    exact .foldlM (fun buckets concrete => reads_updateBucket concrete
      (reads_updateNode field.key _ (reads_mergeField h field selections guards concrete)) buckets)
      types buckets
  | inlineFragment fragment selections => exact h _ _ _ _
  | fragmentSpread spread =>
    simp only [collectOne, MergeContext.collectOne, MergeContext.answered]
    cases context.fragment? spread.fragment with
    | none => exact .pure buckets
    | some fragment => exact h _ _ _ _

/-- Merging comes to what it comes to with the definitions that the catalogue has afterwards. -/
theorem reads_collect (depth : Nat) (selections : List Selection) (types : List String)
    (guards : List Guard) (buckets : List (Bucket (Definition W O C T))) :
    Reads schema done (collect context depth selections types guards buckets)
      fun later => (context.answered later).collect depth selections types guards buckets := by
  induction depth generalizing selections types guards buckets with
  | zero => exact .throw _
  | succ depth ih => exact .foldlM (fun buckets => reads_collectOne ih types guards buckets) _ _

/-- Building the tree of an operation comes to what merging comes to with the definitions that the
catalogue has afterwards. -/
theorem reads_ofOperation (context : MergeContext (Definition W O C T)) (recursionLimit : Nat)
    (operation : Operation) (rootType : String) :
    Reads schema done (ofOperation context recursionLimit operation rootType)
      fun later => SelectionTree.ofOperation (context.answered later) recursionLimit operation
        rootType :=
  (reads_collect _ _ _ _ _).map _

end Building

/-- A tree that is built while defaults are made is what merging comes to with the definitions that
the catalogue has afterwards, and ever after as long as nothing is registered. -/
theorem Catalogue.exists_ofOperation {catalogue after : Catalogue W O C T} {document : Document}
    {name : Option String} {tree : SelectionTree (Definition W O C T)}
    (h : Holds schema done catalogue)
    (ht : catalogue.selectionTree document name = (.ok tree, after)) :
    Holds schema done after
      ∧ ∃ operation rootType, document.operation? name = some operation
        ∧ schema.root? operation.kind = some rootType
        ∧ ∀ later, Holds schema done later → after.Extends later →
          SelectionTree.ofOperation ((catalogue.registry.mergeContext document).answered later)
            catalogue.registry.configuration.recursionLimit operation rootType = .ok tree := by
  rw [Catalogue.selectionTree, h.isOf] at ht
  cases ho : document.operation? name with
  | none =>
    rw [ho] at ht
    cases ht
  | some operation =>
    cases hr : schema.root? operation.kind with
    | none =>
      simp only [ho, hr] at ht
      cases ht
    | some rootType =>
      simp only [ho, hr] at ht
      obtain ⟨result, last, hbuilt, hholds, -, hlater⟩ :=
        Building.reads_ofOperation _ _ operation rootType catalogue h
      cases hbuilt.symm.trans ht
      exact ⟨hholds, operation, rootType, rfl, hr, hlater⟩

/-- A tree is built of an operation that nests within the recursion limit. -/
theorem Catalogue.exists_selectionTree {catalogue : Catalogue W O C T} {document : Document}
    {name : Option String} {operation : Operation} {rootType : String}
    (h : Holds schema done catalogue) (ho : document.operation? name = some operation)
    (hr : schema.root? operation.kind = some rootType)
    (hn : nestsWithin document.fragment? (catalogue.registry.configuration.recursionLimit + 1)
      operation.selections) :
    ∃ tree after, catalogue.selectionTree document name = (.ok tree, after) := by
  obtain ⟨result, after, hbuilt, hholds, -, hlater⟩ := Building.reads_ofOperation
    (catalogue.registry.mergeContext document) catalogue.registry.configuration.recursionLimit
    operation rootType catalogue h
  obtain ⟨tree, htree⟩ := SelectionTree.exists_ofOperation
    ((catalogue.registry.mergeContext document).answered after) hn rootType
  refine ⟨tree, after, ?_⟩
  rw [Catalogue.selectionTree, h.isOf]
  simp only [ho, hr]
  exact hbuilt.trans (congrArg (·, after) ((hlater after hholds (.refl after)).symm.trans htree))

end QueryEngine
