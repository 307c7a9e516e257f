import QueryEngine.Schema.Registry
import QueryEngine.Selection.Tree

/-!
# Cost of an operation

The estimated cost of the parts of a tree that are included under the variables. What a field costs
is said by a `rate`, given the cost of its sub-selection; a field that is left out, or that names
the type of its object, costs nothing. Which bucket applies is known only when the operation is
executed, so the most expensive one counts. The estimate is made in any type with zero, sum and
order.
-/

namespace QueryEngine

variable {D α : Type} [OfNat α 0] [Add α] [LT α] [DecidableLT α]

/-- The greater of two costs; the first one if they cannot be compared. -/
def greater (a b : α) : α :=
  if a < b then b else a

mutual

/-- The cost of a node. -/
def Node.cost (vars : Fields) (rate : Node D → α → α) : Node D → α
  | ⟨key, name, owner, type, isComposite, occurrences, definitions, buckets⟩ =>
    let node : Node D :=
      ⟨key, name, owner, type, isComposite, occurrences, definitions, buckets⟩
    if node.isTypename || ! node.isIncluded vars then 0
    else rate node (costOfBuckets vars rate 0 buckets)

/-- The sum of the costs of the nodes of a bucket. -/
def Bucket.cost (vars : Fields) (rate : Node D → α → α) : Bucket D → α
  | ⟨_, nodes⟩ => costOfNodes vars rate 0 nodes

/-- The greatest of the costs of buckets, and of `most`. -/
def costOfBuckets (vars : Fields) (rate : Node D → α → α) (most : α) : List (Bucket D) → α
  | [] => most
  | bucket :: rest =>
    costOfBuckets vars rate (greater most (bucket.cost vars rate)) rest

/-- The sum of the costs of nodes, from left to right, and of `sum`. -/
def costOfNodes (vars : Fields) (rate : Node D → α → α) (sum : α) : List (Node D) → α
  | [] => sum
  | node :: rest => costOfNodes vars rate (sum + node.cost vars rate) rest
end

/-- The estimated cost of everything below the root. -/
def SelectionTree.cost (tree : SelectionTree D) (vars : Fields) (rate : Node D → α → α) : α :=
  costOfBuckets vars rate 0 tree.root.buckets

variable {W O C T : Type}

/-- What a field costs by its definition, given its arguments and the cost of its sub-selection;
without a definition it adds nothing to the cost of its sub-selection. -/
def Definition.rateBy {α : Type} (evaluate : Definition W O C T → Fields → α → α) (vars : Fields)
    (node : Node (Definition W O C T)) (child : α) : α :=
  match node.definition? with
  | some definition =>
    evaluate definition (definition.descriptor.coerceArguments node.arguments vars) child
  | none => child

/-- What a field costs by its descriptor. -/
def Definition.rate (vars : Fields) (world : W) (node : Node (Definition W O C T))
    (child : Float) : Float :=
  rateBy (fun definition => definition.descriptor.cost.evaluate world) vars node child

/-- The estimated cost of an operation. -/
def SelectionTree.estimate (tree : SelectionTree (Definition W O C T)) (vars : Fields)
    (world : W) : Float :=
  tree.cost vars (Definition.rate vars world)

end QueryEngine
