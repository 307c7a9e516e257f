import QueryEngine.Selection.Tree

/-!
# Showing selection trees

Two texts of a tree: an outline with one line for each bucket and each node, and the inspection
text of the nodes.
-/

namespace QueryEngine

variable {D : Type}

/-- Blanks at the beginning of a line. -/
def indentation (width : Nat) : String :=
  String.ofList (List.replicate width ' ')

/-- The line of a node: its key if it is not the field's name, the name, the type and the number
of merged selections. -/
def Node.line (key name : String) (type : TypeRef) (occurrences : List Occurrence) : String :=
  (if key = name then "" else key ++ ": ") ++ name ++ ": " ++ type.text ++ " x"
    ++ toString occurrences.length

mutual

/-- The lines of a node and of everything below it. -/
def Node.outline (indent : Nat) : Node D → String
  | ⟨key, name, _, type, _, occurrences, _, buckets⟩ =>
    indentation indent ++ Node.line key name type occurrences ++ "\n"
      ++ outlineOfBuckets (indent + 2) buckets

/-- The lines of a bucket. -/
def Bucket.outline (indent : Nat) : Bucket D → String
  | ⟨type, nodes⟩ =>
    indentation indent ++ "[" ++ type ++ "]\n" ++ outlineOfNodes (indent + 2) nodes

/-- The lines of buckets. -/
def outlineOfBuckets (indent : Nat) : List (Bucket D) → String
  | [] => ""
  | bucket :: rest => bucket.outline indent ++ outlineOfBuckets indent rest

/-- The lines of nodes. -/
def outlineOfNodes (indent : Nat) : List (Node D) → String
  | [] => ""
  | node :: rest => node.outline indent ++ outlineOfNodes indent rest
end

mutual

/-- The text that shows a node. -/
def Node.inspect : Node D → String
  | ⟨key, _, owner, type, _, occurrences, _, buckets⟩ =>
    Text.record "SelectionNode"
      [("response_key", Text.quoted key),
       ("owner_type", Text.quoted owner),
       ("return_type", type.inspect),
       ("occurrences", toString occurrences.length),
       ("typed_children", Text.braced (inspectBuckets buckets))]

/-- The text that shows the nodes of a bucket. -/
def Bucket.inspect : Bucket D → String × String
  | ⟨type, nodes⟩ => (Text.quoted type, Text.braced (inspectNodes nodes))

/-- `Bucket.inspect` of each bucket. -/
def inspectBuckets : List (Bucket D) → List (String × String)
  | [] => []
  | bucket :: rest => bucket.inspect :: inspectBuckets rest

/-- `Node.inspect` of each node, behind its key. -/
def inspectNodes : List (Node D) → List (String × String)
  | [] => []
  | node :: rest => (Text.quoted node.key, node.inspect) :: inspectNodes rest
end

namespace SelectionTree

/-- The outline of everything below the root. -/
def outline (tree : SelectionTree D) : String :=
  outlineOfBuckets 0 tree.root.buckets

/-- The text that shows a tree. -/
def inspect (tree : SelectionTree D) : String :=
  Text.record "SelectionTree"
    [("root", tree.root.inspect), ("operation_type", tree.kind.text)]

end SelectionTree

end QueryEngine
