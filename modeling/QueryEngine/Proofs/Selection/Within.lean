import QueryEngine.Selection.Tree

/-!
# Nodes below a node

`Node.Within root node` says that a node is the root or lies below it. In a tree with
`Node.KeysDistinct` no bucket has two nodes with one key, so an object has one field for each of
its keys. A node is higher than the nodes in its buckets (`height_lt_of_isChild`).
-/

namespace QueryEngine

variable {D : Type}

namespace Node

/-- The node is in one of the buckets of the other. -/
def IsChild (parent child : Node D) : Prop :=
  ∃ bucket ∈ parent.buckets, child ∈ bucket.nodes

/-- The node is the root or lies somewhere below it. -/
inductive Within (root : Node D) : Node D → Prop
  | root : Within root root
  | child {parent child : Node D} : Within root parent → IsChild parent child → Within root child

/-- What lies below a child lies below the node. -/
theorem Within.of_child {node child inner : Node D} (hc : IsChild node child)
    (hw : Within child inner) : Within node inner := by
  induction hw with
  | root => exact .child .root hc
  | child _ hic ih => exact ih.child hic

/-- What is at or below a node is the node, or at or below one of its children. -/
theorem Within.eq_or_of_child {node inner : Node D} (h : Within node inner) :
    inner = node ∨ ∃ child, IsChild node child ∧ Within child inner := by
  induction h with
  | root => exact .inl rfl
  | @child parent inner _ hic ih =>
    rcases ih with rfl | ⟨child, hc, hw⟩
    · exact .inr ⟨inner, hic, .root⟩
    · exact .inr ⟨child, hc, hw.child hic⟩

/-- No bucket below the root has two nodes with one key. -/
def KeysDistinct (root : Node D) : Prop :=
  ∀ node, Within root node → ∀ bucket ∈ node.buckets, (bucket.nodes.map Node.key).Nodup

/-- A node that a concrete type has below another is in one of its buckets. -/
theorem isChild_of_mem {parent child : Node D} {concrete : String} {children : List (Node D)}
    (h : parent.children? concrete = some children) (hc : child ∈ children) :
    IsChild parent child := by
  obtain ⟨bucket, hb, rfl⟩ := Option.map_eq_some_iff.1 h
  exact ⟨bucket, List.mem_of_find?_eq_some hb, hc⟩

/-- The fields of an object have distinct keys. -/
theorem KeysDistinct.children {root node : Node D} (h : KeysDistinct root)
    (hn : Within root node) {concrete : String} {children : List (Node D)}
    (hc : node.children? concrete = some children) : (children.map Node.key).Nodup := by
  obtain ⟨bucket, hb, rfl⟩ := Option.map_eq_some_iff.1 hc
  exact h node hn bucket (List.mem_of_find?_eq_some hb)

/-- Keys are distinct below a node if they are in its buckets and below the nodes in these. -/
theorem keysDistinct_iff {node : Node D} :
    KeysDistinct node ↔ ∀ bucket ∈ node.buckets,
      (bucket.nodes.map Node.key).Nodup ∧ ∀ child ∈ bucket.nodes, KeysDistinct child := by
  constructor
  · intro h bucket hb
    exact ⟨h node .root bucket hb, fun child hc inner hi => h inner (.of_child ⟨bucket, hb, hc⟩ hi)⟩
  · intro h inner hi
    rcases hi.eq_or_of_child with rfl | ⟨child, ⟨bucket, hb, hc⟩, hw⟩
    · exact fun bucket hb => (h bucket hb).1
    · exact (h bucket hb).2 child hc inner hw

/-- Below a node without a sub-selection there are no keys. -/
theorem keysDistinct_of_leaf {node : Node D} (h : node.buckets = []) : KeysDistinct node := by
  rw [keysDistinct_iff, h]
  exact fun _ hb => by cases hb

/-- A node with one bucket, whose nodes have distinct keys. -/
theorem keysDistinct_of_bucket {node : Node D} {bucket : Bucket D} (h : node.buckets = [bucket])
    (hb : (bucket.nodes.map Node.key).Nodup) (hc : ∀ child ∈ bucket.nodes, KeysDistinct child) :
    KeysDistinct node := by
  rw [keysDistinct_iff, h]
  intro other ho
  rw [List.mem_singleton.1 ho]
  exact ⟨hb, hc⟩

end Node

/-- A node is no higher than the highest of the nodes. -/
theorem height_le_heightOfNodes {node : Node D} {nodes : List (Node D)} (h : node ∈ nodes) :
    node.height ≤ heightOfNodes nodes := by
  induction nodes with
  | nil => cases h
  | cons first rest ih =>
    unfold heightOfNodes
    rcases List.mem_cons.1 h with rfl | h
    · exact Nat.le_max_left _ _
    · exact Nat.le_trans (ih h) (Nat.le_max_right _ _)

/-- A bucket is no higher than the highest of the buckets. -/
theorem height_le_heightOfBuckets {bucket : Bucket D} {buckets : List (Bucket D)}
    (h : bucket ∈ buckets) : bucket.height ≤ heightOfBuckets buckets := by
  induction buckets with
  | nil => cases h
  | cons first rest ih =>
    unfold heightOfBuckets
    rcases List.mem_cons.1 h with rfl | h
    · exact Nat.le_max_left _ _
    · exact Nat.le_trans (ih h) (Nat.le_max_right _ _)

namespace Node

/-- A node is one higher than its highest bucket. -/
theorem height_eq (node : Node D) : node.height = heightOfBuckets node.buckets + 1 := by
  cases node; rw [height]

/-- No node has height zero. -/
theorem height_pos (node : Node D) : 0 < node.height := by
  rw [height_eq]; omega

/-- A node is higher than those in its buckets. -/
theorem height_lt_of_isChild {parent child : Node D} (h : IsChild parent child) :
    child.height < parent.height := by
  obtain ⟨bucket, hb, hc⟩ := h
  have h1 := height_le_heightOfNodes hc
  have h2 := height_le_heightOfBuckets hb
  have h3 : bucket.height = heightOfNodes bucket.nodes := by cases bucket; rw [Bucket.height]
  rw [height_eq parent]
  omega

end Node

end QueryEngine
