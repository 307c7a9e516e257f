import QueryEngine.Selection.Inclusion

/-!
# Selection trees

A selection tree merges the selections of an operation: below each node there is one bucket for
each concrete type that the value can have, and in a bucket one node for each response key. A node
remembers every field selection merged into it; it is part of a response if one of them is. The
definitions of the fields are of any type `D`.
-/

namespace QueryEngine

mutual

/-- The field selections with one response key on one concrete type. -/
structure Node (D : Type) where
  key : String
  name : String
  /-- The type that the first of the selections was made on. -/
  owner : String
  type : TypeRef
  /-- Whether the first of the selections has a sub-selection. -/
  isComposite : Bool
  occurrences : List Occurrence
  /-- The distinct definitions of the field. -/
  definitions : List D
  buckets : List (Bucket D)

/-- The nodes that apply to one concrete type. -/
structure Bucket (D : Type) where
  type : String
  nodes : List (Node D)
end

/-- The merged selections of an operation. -/
structure SelectionTree (D : Type) where
  kind : OperationKind
  root : Node D

variable {D : Type}

/-- Keeps the first of the values with one number. -/
def distinctBy {α : Type} (number : α → Nat) (values : List α) : List α :=
  values.foldl (fun known value =>
    if known.any fun other => number other == number value then known
    else known ++ [value]) []

namespace Node

/-- The root of a tree, which no field selection leads to. -/
def root (type : String) : Node D where
  key := type
  name := type
  owner := type
  type := .nonNullNamed type
  isComposite := true
  occurrences := []
  definitions := []
  buckets := [⟨type, []⟩]

/-- The node of a field before any selection is merged into it. -/
def ofField (field : Field) (isComposite : Bool) : Node D where
  key := field.key
  name := field.name
  owner := field.owner
  type := field.type
  isComposite := isComposite
  occurrences := []
  definitions := []
  buckets := []

/-- Whether the field is the one that names the type of its object. -/
def isTypename (node : Node D) : Bool :=
  node.name == "__typename"

/-- The definition of the field. -/
def definition? (node : Node D) : Option D :=
  node.definitions.head?

/-- The literals of the arguments; all selections with one key have the same. -/
def arguments (node : Node D) : List (String × Literal) :=
  match node.occurrences with
  | occurrence :: _ => occurrence.field.arguments
  | [] => []

/-- The nodes for objects of a concrete type. -/
def children? (node : Node D) (concrete : String) : Option (List (Node D)) :=
  (node.buckets.find? (·.type == concrete)).map Bucket.nodes

/-- Whether objects can have the concrete type. -/
def hasBucket (node : Node D) (concrete : String) : Bool :=
  node.buckets.any (·.type == concrete)

/-- Whether the node is part of the response under the variables. -/
def isIncluded (node : Node D) (vars : Fields) : Bool :=
  node.occurrences.isEmpty || node.occurrences.any (·.isIncluded vars)

/-- The distinct field selections of the document that are merged into the node. -/
def fields (node : Node D) : List Field :=
  distinctBy Field.id (node.occurrences.map Occurrence.field)

/-- The distinct fragment spreads through which the field was reached. -/
def spreads (node : Node D) : List FragmentSpread :=
  distinctBy FragmentSpread.id <|
    (node.occurrences.flatMap Occurrence.guards).filterMap fun
      | .fragmentSpread spread => some spread
      | _ => none

/-- The number of distinct response keys below the node, over all concrete types. -/
def childrenCount (node : Node D) : Nat :=
  ((node.buckets.flatMap fun bucket => bucket.nodes.map Node.key).eraseDups).length

end Node

mutual

/-- The number of levels of nodes, this one included. -/
def Node.height : Node D → Nat
  | ⟨_, _, _, _, _, _, _, buckets⟩ => heightOfBuckets buckets + 1

/-- The greatest height of a node in a bucket. -/
def Bucket.height : Bucket D → Nat
  | ⟨_, nodes⟩ => heightOfNodes nodes

/-- The greatest height of a bucket. -/
def heightOfBuckets : List (Bucket D) → Nat
  | [] => 0
  | bucket :: rest => max bucket.height (heightOfBuckets rest)

/-- The greatest height of a node. -/
def heightOfNodes : List (Node D) → Nat
  | [] => 0
  | node :: rest => max node.height (heightOfNodes rest)
end

end QueryEngine
