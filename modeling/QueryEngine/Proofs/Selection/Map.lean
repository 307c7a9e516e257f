import QueryEngine.Selection.Merge

/-!
# Trees with other contents

`Node.map` puts other definitions and other occurrences in the places of those of a tree and leaves
everything else as it is. Where a node is found and changed does not depend on either, so merging
with mapped changes makes mapped buckets (`updateNode_map`, `update_map`).
-/

namespace QueryEngine

variable {D E : Type}

/-! ## What a node asks its occurrences -/

/-- The literals of the arguments of a node with the occurrences. -/
def argumentsOf : List Occurrence → List (String × Literal)
  | first :: _ => first.field.arguments
  | [] => []

/-- Whether a node with the occurrences is included. -/
def someIncluded (vars : Fields) (occurrences : List Occurrence) : Bool :=
  occurrences.isEmpty || occurrences.any (·.isIncluded vars)

/-- The arguments of a node are those of its first occurrence. -/
theorem Node.arguments_eq (node : Node D) : node.arguments = argumentsOf node.occurrences := by
  unfold arguments argumentsOf
  cases node.occurrences <;> rfl

/-- A node is included exactly if one of its occurrences is. -/
theorem Node.isIncluded_eq (node : Node D) (vars : Fields) :
    node.isIncluded vars = someIncluded vars node.occurrences := rfl

/-! ## Mapping -/

mutual

/-- The node with other definitions and other occurrences. -/
def Node.map (f : D → E) (g : List Occurrence → List Occurrence) : Node D → Node E
  | ⟨key, name, owner, type, isComposite, occurrences, definitions, buckets⟩ =>
    ⟨key, name, owner, type, isComposite, g occurrences, definitions.map f,
      mapBuckets f g buckets⟩

/-- The bucket with other definitions and other occurrences. -/
def Bucket.map (f : D → E) (g : List Occurrence → List Occurrence) : Bucket D → Bucket E
  | ⟨type, nodes⟩ => ⟨type, mapNodes f g nodes⟩

/-- Buckets with other definitions and other occurrences. -/
def mapBuckets (f : D → E) (g : List Occurrence → List Occurrence) :
    List (Bucket D) → List (Bucket E)
  | [] => []
  | bucket :: rest => bucket.map f g :: mapBuckets f g rest

/-- Nodes with other definitions and other occurrences. -/
def mapNodes (f : D → E) (g : List Occurrence → List Occurrence) : List (Node D) → List (Node E)
  | [] => []
  | node :: rest => node.map f g :: mapNodes f g rest
end

/-- The tree with other definitions and other occurrences. -/
def SelectionTree.map (f : D → E) (g : List Occurrence → List Occurrence) (tree : SelectionTree D) :
    SelectionTree E :=
  ⟨tree.kind, tree.root.map f g⟩

variable (f : D → E) (g : List Occurrence → List Occurrence)

/-- Mapping a list of buckets is mapping each of them. -/
theorem mapBuckets_eq (buckets : List (Bucket D)) :
    mapBuckets f g buckets = buckets.map (Bucket.map f g) := by
  induction buckets with
  | nil => rfl
  | cons bucket rest ih => rw [mapBuckets, ih, List.map_cons]

/-- Mapping a list of nodes is mapping each of them. -/
theorem mapNodes_eq (nodes : List (Node D)) : mapNodes f g nodes = nodes.map (Node.map f g) := by
  induction nodes with
  | nil => rfl
  | cons node rest ih => rw [mapNodes, ih, List.map_cons]

/-- Mapping a bucket keeps its type. -/
theorem Bucket.map_eq (bucket : Bucket D) :
    bucket.map f g = ⟨bucket.type, bucket.nodes.map (Node.map f g)⟩ := by
  cases bucket
  rw [Bucket.map, mapNodes_eq]

@[simp] theorem Bucket.map_type (bucket : Bucket D) : (bucket.map f g).type = bucket.type := by
  rw [Bucket.map_eq]

@[simp] theorem Bucket.map_nodes (bucket : Bucket D) :
    (bucket.map f g).nodes = bucket.nodes.map (Node.map f g) := by
  rw [Bucket.map_eq]

namespace Node

/-- Mapping a node changes its occurrences, its definitions and what is below it. -/
theorem map_eq (node : Node D) :
    node.map f g = ⟨node.key, node.name, node.owner, node.type, node.isComposite,
      g node.occurrences, node.definitions.map f, node.buckets.map (Bucket.map f g)⟩ := by
  cases node
  rw [Node.map, mapBuckets_eq]

section
variable (node : Node D)

@[simp] theorem map_key : (node.map f g).key = node.key := by rw [map_eq]

@[simp] theorem map_name : (node.map f g).name = node.name := by rw [map_eq]

@[simp] theorem map_owner : (node.map f g).owner = node.owner := by rw [map_eq]

@[simp] theorem map_type : (node.map f g).type = node.type := by rw [map_eq]

@[simp] theorem map_isComposite : (node.map f g).isComposite = node.isComposite := by rw [map_eq]

@[simp] theorem map_occurrences : (node.map f g).occurrences = g node.occurrences := by
  rw [map_eq]

@[simp] theorem map_definitions : (node.map f g).definitions = node.definitions.map f := by
  rw [map_eq]

@[simp] theorem map_buckets : (node.map f g).buckets = node.buckets.map (Bucket.map f g) := by
  rw [map_eq]

@[simp] theorem isTypename_map : (node.map f g).isTypename = node.isTypename := by
  simp [isTypename]

@[simp] theorem definition?_map : (node.map f g).definition? = node.definition?.map f := by
  simp [definition?, List.head?_map]

@[simp] theorem hasBucket_map (concrete : String) :
    (node.map f g).hasBucket concrete = node.hasBucket concrete := by
  simp [hasBucket, Function.comp_def]

@[simp] theorem children?_map (concrete : String) :
    (node.map f g).children? concrete
      = (node.children? concrete).map (List.map (Node.map f g)) := by
  have htype : ((fun bucket : Bucket E => bucket.type == concrete) ∘ Bucket.map f g)
      = fun bucket => bucket.type == concrete := by
    funext bucket
    simp
  simp only [children?, map_buckets, List.find?_map, Option.map_map, htype]
  congr 1
  funext bucket
  exact bucket.map_nodes f g

/-- A node is included as before if some of its occurrences are. -/
theorem isIncluded_map {vars : Fields}
    (h : ∀ occurrences, someIncluded vars (g occurrences) = someIncluded vars occurrences) :
    (node.map f g).isIncluded vars = node.isIncluded vars := by
  rw [isIncluded_eq, isIncluded_eq, map_occurrences, h]

end

end Node

mutual

/-- Mapping a node does not change its height. -/
theorem Node.height_map : ∀ node : Node D, (node.map f g).height = node.height
  | ⟨_, _, _, _, _, _, _, buckets⟩ => by
    rw [Node.map, Node.height, Node.height, heightOfBuckets_map buckets]

/-- Mapping a bucket does not change its height. -/
theorem Bucket.height_map : ∀ bucket : Bucket D, (bucket.map f g).height = bucket.height
  | ⟨_, nodes⟩ => by rw [Bucket.map, Bucket.height, Bucket.height, heightOfNodes_map nodes]

/-- Mapping a list of buckets does not change its height. -/
theorem heightOfBuckets_map : ∀ buckets : List (Bucket D),
    heightOfBuckets (mapBuckets f g buckets) = heightOfBuckets buckets
  | [] => rfl
  | bucket :: rest => by
    rw [mapBuckets, heightOfBuckets, heightOfBuckets, bucket.height_map, heightOfBuckets_map rest]

/-- Mapping a list of nodes does not change its height. -/
theorem heightOfNodes_map : ∀ nodes : List (Node D),
    heightOfNodes (mapNodes f g nodes) = heightOfNodes nodes
  | [] => rfl
  | node :: rest => by
    rw [mapNodes, heightOfNodes, heightOfNodes, node.height_map, heightOfNodes_map rest]
end

namespace Bucket

/-- Whether a bucket has to be added does not depend on what the nodes hold. -/
theorem ensure_map (type : String) (buckets : List (Bucket D)) :
    ensure type (buckets.map (Bucket.map f g)) = (ensure type buckets).map (Bucket.map f g) := by
  have hany : (buckets.map (Bucket.map f g)).any (·.type == type)
      = buckets.any (·.type == type) := by
    simp [Function.comp_def]
  unfold ensure
  rw [hany]
  split
  · rfl
  · rw [List.map_append]
    rfl

variable {f g}

/-- A node is changed in the same place. -/
theorem updateNode_map {key : String} {fresh : Node D}
    {change : Node D → Except BuildError (Node D)} {change' : Node E → Except BuildError (Node E)}
    (h : ∀ node, change' (node.map f g) = (change node).map (Node.map f g))
    (nodes : List (Node D)) :
    updateNode key (fresh.map f g) change' (nodes.map (Node.map f g))
      = (updateNode key fresh change nodes).map (List.map (Node.map f g)) := by
  induction nodes with
  | nil =>
    simp only [List.map_nil, updateNode, h]
    cases change fresh <;> rfl
  | cons node rest ih =>
    simp only [List.map_cons, updateNode, Node.map_key, h, ih]
    split
    · cases change node <;> rfl
    · cases updateNode key fresh change rest <;> rfl

/-- The nodes of a type are changed in the same place. -/
theorem update_map {type : String} {change : List (Node D) → Except BuildError (List (Node D))}
    {change' : List (Node E) → Except BuildError (List (Node E))}
    (h : ∀ nodes, change' (nodes.map (Node.map f g))
      = (change nodes).map (List.map (Node.map f g))) (buckets : List (Bucket D)) :
    update type change' (buckets.map (Bucket.map f g))
      = (update type change buckets).map (List.map (Bucket.map f g)) := by
  induction buckets with
  | nil =>
    have hempty := h []
    rw [List.map_nil] at hempty
    simp only [List.map_nil, update, hempty]
    cases change [] with
    | error => rfl
    | ok nodes => simp [Except.map, map_eq]
  | cons bucket rest ih =>
    simp only [List.map_cons, update, map_type, map_nodes, h, ih]
    split
    · cases change bucket.nodes with
      | error => rfl
      | ok nodes => simp [Except.map, map_eq]
    · cases update type change rest <;> rfl

end Bucket

end QueryEngine
