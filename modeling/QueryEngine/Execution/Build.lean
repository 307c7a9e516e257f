import QueryEngine.Execution.Run
import QueryEngine.Schema.Catalogue

/-!
# Building trees from a catalogue

A selection tree that is built while a catalogue makes defaults: each field selection that is merged
looks its definition up in the catalogue as the lookups before have left it. Otherwise selections
are merged as `MergeContext.collect` merges them.
-/

namespace QueryEngine

/-- A part of building a tree: it may fail, and it may look definitions up in the catalogue. -/
abbrev Building (W O C T : Type) := ExceptT BuildError (StateM (Catalogue W O C T))

variable {W O C T : Type}

/-- Merges selections into buckets while definitions are looked up. -/
abbrev LookingCollector (W O C T : Type) :=
  List Selection → List String → List Guard → List (Bucket (Definition W O C T)) →
    Building W O C T (List (Bucket (Definition W O C T)))

namespace Building

/-- Looks a definition up, which may make a default. -/
def lookUp (type field : String) : Building W O C T (Option (Definition W O C T)) :=
  modifyGet fun catalogue => catalogue.lookUp type field

/-- Changes the node with a key, or adds one made from `fresh`. -/
def updateNode (key : String) (fresh : Node (Definition W O C T))
    (change : Node (Definition W O C T) → Building W O C T (Node (Definition W O C T))) :
    List (Node (Definition W O C T)) → Building W O C T (List (Node (Definition W O C T)))
  | [] => (fun node => [node]) <$> change fresh
  | node :: rest =>
    if node.key = key then (· :: rest) <$> change node
    else (node :: ·) <$> updateNode key fresh change rest

/-- Changes the nodes of the bucket for a type, or adds the bucket. -/
def updateBucket (type : String)
    (change : List (Node (Definition W O C T)) →
      Building W O C T (List (Node (Definition W O C T)))) :
    List (Bucket (Definition W O C T)) → Building W O C T (List (Bucket (Definition W O C T)))
  | [] => (fun nodes => [⟨type, nodes⟩]) <$> change []
  | bucket :: rest =>
    if bucket.type = type then (fun nodes => ⟨type, nodes⟩ :: rest) <$> change bucket.nodes
    else (bucket :: ·) <$> updateBucket type change rest

variable (context : MergeContext (Definition W O C T))

/-- Records a field selection in a node of a concrete type. -/
def record (field : Field) (guards : List Guard) (concrete : String)
    (node : Node (Definition W O C T)) : Building W O C T (Node (Definition W O C T)) := do
  let node := { node with occurrences := node.occurrences ++ [⟨field, guards⟩] }
  if node.isTypename then return node
  match ← lookUp concrete field.name with
  | some definition =>
    return { node with definitions := context.addDefinition node.definitions definition }
  | none => return node

/-- Merges a field selection into a node of a concrete type. -/
def mergeField (descend : LookingCollector W O C T) (field : Field) (selections : List Selection)
    (guards : List Guard) (concrete : String) (node : Node (Definition W O C T)) :
    Building W O C T (Node (Definition W O C T)) := do
  let node ← record context field guards concrete node
  if selections.isEmpty then return node
  let types := context.schema.possibleTypes field.type.inner
  let buckets := types.foldl (fun buckets type => Bucket.ensure type buckets) node.buckets
  let buckets ← descend selections types (guards ++ [.field field]) buckets
  return { node with buckets }

/-- Merges one selection into the buckets of `types`. -/
def collectOne (descend : LookingCollector W O C T) (types : List String) (guards : List Guard)
    (buckets : List (Bucket (Definition W O C T))) :
    Selection → Building W O C T (List (Bucket (Definition W O C T)))
  | .field field selections =>
    types.foldlM (fun buckets concrete =>
      updateBucket concrete
        (updateNode field.key (Node.ofField field (! selections.isEmpty))
          (mergeField context descend field selections guards concrete))
        buckets) buckets
  | .inlineFragment fragment selections =>
    let types := match fragment.condition? with
      | some condition => context.narrow types condition
      | none => types
    descend selections types (guards ++ [.inlineFragment fragment]) buckets
  | .fragmentSpread spread =>
    match context.fragment? spread.fragment with
    | none => return buckets
    | some fragment =>
      descend fragment.selections (context.narrow types fragment.condition)
        (guards ++ [.fragmentSpread spread]) buckets

/-- Merges a selection set into the buckets of the types, down to the given depth. -/
def collect : Nat → LookingCollector W O C T
  | 0, _, _, _, _ => throw .recursionLimitExceeded
  | depth + 1, selections, types, guards, buckets =>
    selections.foldlM (collectOne context (collect depth) types guards) buckets

/-- The tree of an operation on the root type. -/
def ofOperation (recursionLimit : Nat) (operation : Operation) (rootType : String) :
    Building W O C T (SelectionTree (Definition W O C T)) :=
  let root : Node (Definition W O C T) := Node.root rootType
  (fun buckets => { kind := operation.kind, root := { root with buckets } }) <$>
    collect context (recursionLimit + 1) operation.selections [rootType] [] root.buckets

end Building

/-- The selection tree of an operation of a document, and the catalogue with the defaults that were
made for it. -/
def Catalogue.selectionTree (catalogue : Catalogue W O C T) (document : Document)
    (name : Option String) :
    Except BuildError (SelectionTree (Definition W O C T)) × Catalogue W O C T :=
  match document.operation? name with
  | none => (.error (.unknownOperation (name.getD "")), catalogue)
  | some operation =>
    match catalogue.registry.schema.root? operation.kind with
    | none => (.error (.missingRootType operation.kind), catalogue)
    | some rootType =>
      Building.ofOperation (catalogue.registry.mergeContext document)
        catalogue.registry.configuration.recursionLimit operation rootType catalogue

end QueryEngine
