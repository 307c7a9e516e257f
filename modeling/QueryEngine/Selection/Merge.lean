import QueryEngine.Schema.Definition
import QueryEngine.Selection.Tree

/-!
# Merging selections

`collect` merges a selection set into the buckets of the types that its object can have. A fragment
narrows the types by its condition, a field descends into the types that its value can have. Every
selection that is entered takes one level off the depth that is left, so the recursion ends also on
documents whose fragments spread each other.
-/

namespace QueryEngine

/-- What merging needs to know beside the selections. -/
structure MergeContext (D : Type) where
  schema : Schema
  fragment? : String → Option Fragment
  /-- The definition of a field of a concrete type. -/
  definition? : String → String → Option D
  /-- Whether two definitions are one and the same. -/
  sameDefinition : D → D → Bool

variable {D : Type}

/-- Merges selections into buckets. -/
abbrev Collector (D : Type) :=
  List Selection → List String → List Guard → List (Bucket D) → Except BuildError (List (Bucket D))

namespace Bucket

/-- Adds an empty bucket for a type that has none. -/
def ensure (type : String) (buckets : List (Bucket D)) : List (Bucket D) :=
  if buckets.any (·.type == type) then buckets else buckets ++ [⟨type, []⟩]

/-- Changes the node with a key, or adds one made from `fresh`. -/
def updateNode (key : String) (fresh : Node D) (change : Node D → Except BuildError (Node D)) :
    List (Node D) → Except BuildError (List (Node D))
  | [] => (change fresh).map fun node => [node]
  | node :: rest =>
    if node.key = key then (change node).map (· :: rest)
    else (updateNode key fresh change rest).map (node :: ·)

/-- Changes the nodes of the bucket for a type, or adds the bucket. -/
def update (type : String) (change : List (Node D) → Except BuildError (List (Node D))) :
    List (Bucket D) → Except BuildError (List (Bucket D))
  | [] => (change []).map fun nodes => [⟨type, nodes⟩]
  | bucket :: rest =>
    if bucket.type = type then (change bucket.nodes).map fun nodes => ⟨type, nodes⟩ :: rest
    else (update type change rest).map (bucket :: ·)

end Bucket

namespace MergeContext

/-- The types among `types` that satisfy a type condition. -/
def narrow (context : MergeContext D) (types : List String) (condition : String) : List String :=
  types.filter fun concrete => context.schema.satisfies concrete condition

/-- Adds a definition unless it is there. -/
def addDefinition (context : MergeContext D) (definitions : List D) (definition : D) : List D :=
  if definitions.any fun known => context.sameDefinition known definition then definitions
  else definitions ++ [definition]

/-- Records a field selection in a node of a concrete type. -/
def record (context : MergeContext D) (field : Field) (guards : List Guard) (concrete : String)
    (node : Node D) : Node D :=
  let definitions :=
    if node.isTypename then node.definitions
    else
      match context.definition? concrete field.name with
      | some definition => context.addDefinition node.definitions definition
      | none => node.definitions
  { node with occurrences := node.occurrences ++ [⟨field, guards⟩], definitions }

/-- Merges a field selection into a node of a concrete type. -/
def mergeField (context : MergeContext D) (descend : Collector D) (field : Field)
    (selections : List Selection) (guards : List Guard) (concrete : String) (node : Node D) :
    Except BuildError (Node D) :=
  let node := context.record field guards concrete node
  if selections.isEmpty then .ok node
  else
    let types := context.schema.possibleTypes field.type.inner
    let buckets := types.foldl (fun buckets type => Bucket.ensure type buckets) node.buckets
    (descend selections types (guards ++ [.field field]) buckets).map fun buckets =>
      { node with buckets }

/-- Merges one selection into the buckets of `types`. -/
def collectOne (context : MergeContext D) (descend : Collector D) (types : List String)
    (guards : List Guard) (buckets : List (Bucket D)) :
    Selection → Except BuildError (List (Bucket D))
  | .field field selections =>
    types.foldlM (fun buckets concrete =>
      Bucket.update concrete
        (Bucket.updateNode field.key (Node.ofField field (! selections.isEmpty))
          (context.mergeField descend field selections guards concrete))
        buckets) buckets
  | .inlineFragment fragment selections =>
    let types := match fragment.condition? with
      | some condition => context.narrow types condition
      | none => types
    descend selections types (guards ++ [.inlineFragment fragment]) buckets
  | .fragmentSpread spread =>
    match context.fragment? spread.fragment with
    | none => .ok buckets
    | some fragment =>
      descend fragment.selections (context.narrow types fragment.condition)
        (guards ++ [.fragmentSpread spread]) buckets

/-- Merges a selection set into the buckets of the types, down to the given depth. -/
def collect (context : MergeContext D) : Nat → Collector D
  | 0, _, _, _, _ => .error .recursionLimitExceeded
  | depth + 1, selections, types, guards, buckets =>
    selections.foldlM (context.collectOne (context.collect depth) types guards) buckets

end MergeContext

/-- The tree of an operation on the root type. The recursion limit is the number of selection sets
that may enclose another. -/
def SelectionTree.ofOperation (context : MergeContext D) (recursionLimit : Nat)
    (operation : Operation) (rootType : String) : Except BuildError (SelectionTree D) :=
  let root : Node D := Node.root rootType
  (context.collect (recursionLimit + 1) operation.selections [rootType] [] root.buckets).map
    fun buckets => { kind := operation.kind, root := { root with buckets } }

end QueryEngine
