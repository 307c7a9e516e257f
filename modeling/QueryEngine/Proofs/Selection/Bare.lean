import Mathlib.Data.List.Forall2
import QueryEngine.Selection.Merge

/-!
# Trees without numbers

What an execution sees of a selection tree is its shape: the keys, names, types, arguments and
definitions of its nodes and when they are included. Which selection of the document a node comes
from is no part of it. `Node.bare` leaves that out: the numbers of fields, and what kind of
selection a guard is. Bare trees that are equal have one shape (`Node.shape_bare`). Merging does
not look at what is left out, so its steps keep nodes and buckets that are equal when bare
(`map_updateNode_congr`, `map_update_congr`).
-/

namespace QueryEngine

variable {D : Type}

/-! ## Results that agree -/

/-- Both results are the same error, or they are values that are related. -/
inductive Correspond {ε α β : Type} (R : α → β → Prop) : Except ε α → Except ε β → Prop
  | error (e : ε) : Correspond R (.error e) (.error e)
  | ok {a : α} {b : β} (h : R a b) : Correspond R (.ok a) (.ok b)

section
variable {ε α β γ δ : Type}

/-- Results that agree are one error or values that agree. -/
theorem error_or_ok_of_map_eq {x y : Except ε α} {f : α → β} (h : x.map f = y.map f) :
    (∃ e, x = .error e ∧ y = .error e) ∨ ∃ a b, x = .ok a ∧ y = .ok b ∧ f a = f b := by
  cases x with
  | error e =>
    cases y with
    | error e' =>
      obtain rfl : e = e' := Except.error.inj h
      exact .inl ⟨e, rfl, rfl⟩
    | ok b => cases h
  | ok a =>
    cases y with
    | error e' => cases h
    | ok b => exact .inr ⟨a, b, rfl, rfl, Except.ok.inj h⟩

/-- A weaker relation between the values still relates the results. -/
theorem Correspond.imp {R S : α → β → Prop} {x : Except ε α} {y : Except ε β}
    (h : Correspond R x y) (hi : ∀ a b, R a b → S a b) : Correspond S x y := by
  cases h with
  | error e => exact .error e
  | ok h => exact .ok (hi _ _ h)

/-- Results whose values have one image are results that agree once mapped. -/
theorem correspond_iff_map_eq {x y : Except ε α} {f : α → β} :
    Correspond (fun a b => f a = f b) x y ↔ x.map f = y.map f := by
  constructor
  · rintro (_ | h)
    · rfl
    · exact congrArg Except.ok h
  · intro h
    obtain ⟨e, rfl, rfl⟩ | ⟨a, b, rfl, rfl, hab⟩ := error_or_ok_of_map_eq h
    · exact .error e
    · exact .ok hab

/-- What is made from results that agree agrees. -/
theorem map_map_congr {x y : Except ε α} {f : α → γ} {g h : α → β} {k : β → δ}
    (hxy : x.map f = y.map f) (hk : ∀ a b, f a = f b → k (g a) = k (h b)) :
    (x.map g).map k = (y.map h).map k := by
  obtain ⟨e, rfl, rfl⟩ | ⟨a, b, rfl, rfl, hab⟩ := error_or_ok_of_map_eq hxy
  · rfl
  · exact congrArg Except.ok (hk a b hab)

/-- What goes on from results that agree agrees if the rest does. -/
theorem map_bind_congr {x y : Except ε α} {f : α → γ} {g : β → δ} {k k' : α → Except ε β}
    (hxy : x.map f = y.map f) (hk : ∀ a b, f a = f b → (k a).map g = (k' b).map g) :
    (x >>= k).map g = (y >>= k').map g := by
  obtain ⟨e, rfl, rfl⟩ | ⟨a, b, rfl, rfl, hab⟩ := error_or_ok_of_map_eq hxy
  · rfl
  · exact hk a b hab

/-- Folds whose steps agree agree. -/
theorem map_foldlM_congr {f : β → γ} {related : α → α → Prop} {step step' : β → α → Except ε β}
    (hs : ∀ a a', related a a' → ∀ b b', f b = f b' → (step b a).map f = (step' b' a').map f)
    {items items' : List α} (hi : List.Forall₂ related items items') {b b' : β}
    (hb : f b = f b') : (items.foldlM step b).map f = (items'.foldlM step' b').map f := by
  induction hi generalizing b b' with
  | nil => exact congrArg Except.ok hb
  | @cons a a' rest rest' ha _ ih =>
    rw [List.foldlM_cons, List.foldlM_cons]
    exact map_bind_congr (hs a a' ha b b' hb) fun c c' hc => ih hc

end

/-! ## Bare nodes -/

/-- The field without its number. -/
def Field.bare (field : Field) : Field := { field with id := 0 }

/-- The guard with nothing but its directives. -/
def Guard.bare (guard : Guard) : Guard := .inlineFragment ⟨0, none, guard.directives⟩

/-- The occurrence without numbers. -/
def Occurrence.bare (occurrence : Occurrence) : Occurrence :=
  ⟨occurrence.field.bare, occurrence.guards.map Guard.bare⟩

mutual

/-- The node without numbers. -/
def Node.bare : Node D → Node D
  | ⟨key, name, owner, type, isComposite, occurrences, definitions, buckets⟩ =>
    ⟨key, name, owner, type, isComposite, occurrences.map Occurrence.bare, definitions,
      bareBuckets buckets⟩

/-- The bucket without numbers. -/
def Bucket.bare : Bucket D → Bucket D
  | ⟨type, nodes⟩ => ⟨type, bareNodes nodes⟩

/-- Buckets without numbers. -/
def bareBuckets : List (Bucket D) → List (Bucket D)
  | [] => []
  | bucket :: rest => bucket.bare :: bareBuckets rest

/-- Nodes without numbers. -/
def bareNodes : List (Node D) → List (Node D)
  | [] => []
  | node :: rest => node.bare :: bareNodes rest
end

/-- The tree without numbers. -/
def SelectionTree.bare (tree : SelectionTree D) : SelectionTree D :=
  { tree with root := tree.root.bare }

/-- A list of buckets without numbers is the list of its buckets without numbers. -/
theorem bareBuckets_eq (buckets : List (Bucket D)) :
    bareBuckets buckets = buckets.map Bucket.bare := by
  induction buckets with
  | nil => rfl
  | cons bucket rest ih => rw [bareBuckets, ih, List.map_cons]

/-- A list of nodes without numbers is the list of its nodes without numbers. -/
theorem bareNodes_eq (nodes : List (Node D)) : bareNodes nodes = nodes.map Node.bare := by
  induction nodes with
  | nil => rfl
  | cons node rest ih => rw [bareNodes, ih, List.map_cons]

/-- A bucket without numbers keeps its type. -/
theorem Bucket.bare_eq (bucket : Bucket D) :
    bucket.bare = ⟨bucket.type, bucket.nodes.map Node.bare⟩ := by
  cases bucket
  rw [Bucket.bare, bareNodes_eq]

@[simp] theorem Bucket.bare_type (bucket : Bucket D) : bucket.bare.type = bucket.type := by
  rw [Bucket.bare_eq]

@[simp] theorem Bucket.bare_nodes (bucket : Bucket D) :
    bucket.bare.nodes = bucket.nodes.map Node.bare := by
  rw [Bucket.bare_eq]

@[simp] theorem Guard.bare_directives (guard : Guard) :
    guard.bare.directives = guard.directives := rfl

/-- Guards with the same directives are the same when bare. -/
theorem Guard.bare_eq_iff {a b : Guard} : a.bare = b.bare ↔ a.directives = b.directives := by
  simp [Guard.bare]

@[simp] theorem Occurrence.isIncluded_bare (occurrence : Occurrence) (vars : Fields) :
    occurrence.bare.isIncluded vars = occurrence.isIncluded vars := by
  simp [Occurrence.isIncluded, Occurrence.bare, Field.bare, Function.comp_def]

namespace Node

/-- A node without numbers keeps its data and definitions, and loses the numbers of its occurrences
and those below it. -/
theorem bare_eq (node : Node D) :
    node.bare = { node with
      occurrences := node.occurrences.map Occurrence.bare
      buckets := node.buckets.map Bucket.bare } := by
  cases node
  rw [Node.bare, bareBuckets_eq]

section
variable (node : Node D)

@[simp] theorem bare_key : node.bare.key = node.key := by rw [bare_eq]

@[simp] theorem bare_name : node.bare.name = node.name := by rw [bare_eq]

@[simp] theorem bare_owner : node.bare.owner = node.owner := by rw [bare_eq]

@[simp] theorem bare_type : node.bare.type = node.type := by rw [bare_eq]

@[simp] theorem bare_isComposite : node.bare.isComposite = node.isComposite := by rw [bare_eq]

@[simp] theorem bare_definitions : node.bare.definitions = node.definitions := by rw [bare_eq]

@[simp] theorem bare_occurrences :
    node.bare.occurrences = node.occurrences.map Occurrence.bare := by
  rw [bare_eq]

@[simp] theorem bare_buckets : node.bare.buckets = node.buckets.map Bucket.bare := by
  rw [bare_eq]

@[simp] theorem isTypename_bare : node.bare.isTypename = node.isTypename := by
  simp [isTypename]

@[simp] theorem arguments_bare : node.bare.arguments = node.arguments := by
  unfold arguments
  rw [bare_occurrences]
  cases node.occurrences <;> rfl

@[simp] theorem isIncluded_bare (vars : Fields) :
    node.bare.isIncluded vars = node.isIncluded vars := by
  simp [isIncluded, Function.comp_def]

end

/-- Nodes are the same when bare if all that is not left out is. -/
theorem bare_congr {a b : Node D} (hkey : a.key = b.key) (hname : a.name = b.name)
    (howner : a.owner = b.owner) (htype : a.type = b.type)
    (hcomposite : a.isComposite = b.isComposite) (hdefinitions : a.definitions = b.definitions)
    (hoccurrences : a.occurrences.map Occurrence.bare = b.occurrences.map Occurrence.bare)
    (hbuckets : a.buckets.map Bucket.bare = b.buckets.map Bucket.bare) : a.bare = b.bare := by
  rw [bare_eq, bare_eq, hoccurrences, hbuckets]
  cases a
  cases b
  simp_all

end Node

/-! ## Shapes -/

/-- What can be seen of a node: its data, the variables under which it is included, and the same of
the nodes below it, by concrete types and in order. -/
inductive Shape (D : Type) where
  | node (key name owner : String) (type : TypeRef) (isComposite : Bool)
    (arguments : List (String × Literal)) (definitions : List D) (isIncluded : Fields → Bool)
    (buckets : List (String × List (Shape D)))

mutual

/-- The shape of a node. -/
def Node.shape : Node D → Shape D
  | ⟨key, name, owner, type, isComposite, occurrences, definitions, buckets⟩ =>
    let node : Node D :=
      ⟨key, name, owner, type, isComposite, occurrences, definitions, buckets⟩
    .node key name owner type isComposite node.arguments definitions node.isIncluded
      (shapesOfBuckets buckets)

/-- The shape of a bucket. -/
def Bucket.shape : Bucket D → String × List (Shape D)
  | ⟨type, nodes⟩ => (type, shapesOfNodes nodes)

/-- The shapes of buckets. -/
def shapesOfBuckets : List (Bucket D) → List (String × List (Shape D))
  | [] => []
  | bucket :: rest => bucket.shape :: shapesOfBuckets rest

/-- The shapes of nodes. -/
def shapesOfNodes : List (Node D) → List (Shape D)
  | [] => []
  | node :: rest => node.shape :: shapesOfNodes rest
end

/-- The shapes of a list of buckets are the shapes of its buckets. -/
theorem shapesOfBuckets_eq (buckets : List (Bucket D)) :
    shapesOfBuckets buckets = buckets.map Bucket.shape := by
  induction buckets with
  | nil => rfl
  | cons bucket rest ih => rw [shapesOfBuckets, ih, List.map_cons]

/-- The shapes of a list of nodes are the shapes of its nodes. -/
theorem shapesOfNodes_eq (nodes : List (Node D)) :
    shapesOfNodes nodes = nodes.map Node.shape := by
  induction nodes with
  | nil => rfl
  | cons node rest ih => rw [shapesOfNodes, ih, List.map_cons]

/-- The shape of a bucket is its type with the shapes of its nodes. -/
theorem Bucket.shape_eq (bucket : Bucket D) :
    bucket.shape = (bucket.type, bucket.nodes.map Node.shape) := by
  cases bucket
  rw [Bucket.shape, shapesOfNodes_eq]

/-- What the shape of a node says of it, with the shapes of its buckets. -/
theorem Node.shape_eq (node : Node D) :
    node.shape = .node node.key node.name node.owner node.type node.isComposite node.arguments
      node.definitions node.isIncluded (node.buckets.map Bucket.shape) := by
  cases node
  rw [Node.shape, shapesOfBuckets_eq]

/-- What can be seen of a tree. -/
def SelectionTree.shape (tree : SelectionTree D) : OperationKind × Shape D :=
  (tree.kind, tree.root.shape)

mutual

/-- Nothing that is left out of a bare node can be seen. -/
theorem Node.shape_bare : ∀ node : Node D, node.bare.shape = node.shape
  | ⟨key, name, owner, type, isComposite, occurrences, definitions, buckets⟩ => by
    have harguments := Node.arguments_bare
      ⟨key, name, owner, type, isComposite, occurrences, definitions, buckets⟩
    have hincluded := funext (Node.isIncluded_bare
      ⟨key, name, owner, type, isComposite, occurrences, definitions, buckets⟩)
    rw [Node.bare] at harguments hincluded ⊢
    simp only [Node.shape, harguments, shapesOfBuckets_bare buckets]
    exact congrArg (Shape.node _ _ _ _ _ _ _ · _) hincluded

/-- The numbers in a bucket are no part of its shape. -/
theorem Bucket.shape_bare : ∀ bucket : Bucket D, bucket.bare.shape = bucket.shape
  | ⟨_, nodes⟩ => by rw [Bucket.bare, Bucket.shape, Bucket.shape, shapesOfNodes_bare nodes]

/-- The numbers in a list of buckets are no part of their shapes. -/
theorem shapesOfBuckets_bare : ∀ buckets : List (Bucket D),
    shapesOfBuckets (bareBuckets buckets) = shapesOfBuckets buckets
  | [] => rfl
  | bucket :: rest => by
    rw [bareBuckets, shapesOfBuckets, shapesOfBuckets, bucket.shape_bare, shapesOfBuckets_bare rest]

/-- The numbers in a list of nodes are no part of their shapes. -/
theorem shapesOfNodes_bare : ∀ nodes : List (Node D),
    shapesOfNodes (bareNodes nodes) = shapesOfNodes nodes
  | [] => rfl
  | node :: rest => by
    rw [bareNodes, shapesOfNodes, shapesOfNodes, node.shape_bare, shapesOfNodes_bare rest]
end

/-- The numbers in a tree are no part of its shape. -/
theorem SelectionTree.shape_bare (tree : SelectionTree D) : tree.bare.shape = tree.shape := by
  rw [shape, shape, bare, Node.shape_bare]

/-! ## Changing nodes and buckets -/

namespace Bucket

/-- Buckets that are equal without numbers are for the same types in the same order. -/
theorem types_bare {buckets buckets' : List (Bucket D)}
    (h : buckets.map Bucket.bare = buckets'.map Bucket.bare) :
    buckets.map Bucket.type = buckets'.map Bucket.type := by
  have htypes := congrArg (List.map Bucket.type) h
  simpa [Function.comp_def] using htypes

/-- Whether a bucket has to be added does not depend on what is left out. -/
theorem map_ensure_congr (type : String) {buckets buckets' : List (Bucket D)}
    (h : buckets.map Bucket.bare = buckets'.map Bucket.bare) :
    (ensure type buckets).map Bucket.bare = (ensure type buckets').map Bucket.bare := by
  have hany : buckets.any (·.type == type) = buckets'.any (·.type == type) := by
    have htypes := congrArg (List.any · (· == type)) (types_bare h)
    simpa [Function.comp_def] using htypes
  unfold ensure
  rw [hany]
  split
  · exact h
  · rw [List.map_append, List.map_append, h]

/-- Opening buckets keeps two lists of buckets equal without numbers. -/
theorem map_foldl_ensure_congr (types : List String) {buckets buckets' : List (Bucket D)}
    (h : buckets.map Bucket.bare = buckets'.map Bucket.bare) :
    (types.foldl (fun buckets type => ensure type buckets) buckets).map Bucket.bare
      = (types.foldl (fun buckets type => ensure type buckets) buckets').map Bucket.bare := by
  induction types generalizing buckets buckets' with
  | nil => exact h
  | cons type rest ih => exact ih (map_ensure_congr type h)

/-- Nodes that are the same when bare are changed in the same place. -/
theorem map_updateNode_congr {key : String} {fresh fresh' : Node D}
    {change change' : Node D → Except BuildError (Node D)} (hf : fresh.bare = fresh'.bare)
    (hc : ∀ node node', node.bare = node'.bare →
      (change node).map Node.bare = (change' node').map Node.bare)
    {nodes nodes' : List (Node D)} (hn : nodes.map Node.bare = nodes'.map Node.bare) :
    (updateNode key fresh change nodes).map (List.map Node.bare)
      = (updateNode key fresh' change' nodes').map (List.map Node.bare) := by
  induction nodes generalizing nodes' with
  | nil =>
    obtain rfl : nodes' = [] := by simpa using hn.symm
    exact map_map_congr (hc _ _ hf) fun a b hab => by simp [hab]
  | cons node rest ih =>
    cases nodes' with
    | nil => cases hn
    | cons node' rest' =>
      obtain ⟨hnode, hrest⟩ := List.cons.inj hn
      have hkey : node.key = node'.key := by simpa using congrArg Node.key hnode
      have hrest : rest.map Node.bare = rest'.map Node.bare := hrest
      unfold updateNode
      rw [hkey]
      split
      · exact map_map_congr (hc _ _ hnode) fun a b hab => by simp [hab, hrest]
      · exact map_map_congr (ih hrest) fun a b hab => by simp [hab, hnode]

/-- Buckets that are the same when bare are changed in the same place. -/
theorem map_update_congr {type : String}
    {change change' : List (Node D) → Except BuildError (List (Node D))}
    (hc : ∀ nodes nodes', nodes.map Node.bare = nodes'.map Node.bare →
      (change nodes).map (List.map Node.bare) = (change' nodes').map (List.map Node.bare))
    {buckets buckets' : List (Bucket D)}
    (hb : buckets.map Bucket.bare = buckets'.map Bucket.bare) :
    (update type change buckets).map (List.map Bucket.bare)
      = (update type change' buckets').map (List.map Bucket.bare) := by
  induction buckets generalizing buckets' with
  | nil =>
    obtain rfl : buckets' = [] := by simpa using hb.symm
    exact map_map_congr (hc _ _ rfl) fun a b hab => by simp [Bucket.bare_eq, hab]
  | cons bucket rest ih =>
    cases buckets' with
    | nil => cases hb
    | cons bucket' rest' =>
      obtain ⟨hbucket, hrest⟩ := List.cons.inj hb
      have htype : bucket.type = bucket'.type := by simpa using congrArg Bucket.type hbucket
      have hnodes : bucket.nodes.map Node.bare = bucket'.nodes.map Node.bare := by
        simpa using congrArg Bucket.nodes hbucket
      have hrest : rest.map Bucket.bare = rest'.map Bucket.bare := hrest
      unfold update
      rw [htype]
      split
      · exact map_map_congr (hc _ _ hnodes) fun a b hab => by simp [Bucket.bare_eq, hab, hrest]
      · exact map_map_congr (ih hrest) fun a b hab => by simp [hab, hbucket]

end Bucket

end QueryEngine
