import QueryEngine.Proofs.Execution.Course
import QueryEngine.Proofs.Execution.Relabel
import QueryEngine.Proofs.Selection.Chains
import QueryEngine.Proofs.Selection.Inlining

/-!
# Named fragments do not show in a response

A bare tree is the tree with bare occurrences (`Node.bare_eq_map`), which an execution cannot tell
from the occurrences themselves. So a tree and its bare form have one response (`execute_bare`), and
a request cannot tell a document from the one with its spreads inlined (`executeRequest_inlines`).
-/

namespace QueryEngine

variable {W O C T : Type}

/-! ## Bare trees -/

mutual

/-- A node without numbers is one whose occurrences are mapped to ones without. -/
theorem Node.bare_eq_map {D : Type} :
    ∀ node : Node D, node.bare = node.map id (List.map Occurrence.bare)
  | ⟨_, _, _, _, _, _, _, buckets⟩ => by
    rw [Node.bare, Node.map, bareBuckets_eq_map buckets, List.map_id]

/-- A bucket without numbers is one whose occurrences are mapped to ones without. -/
theorem Bucket.bare_eq_map {D : Type} :
    ∀ bucket : Bucket D, bucket.bare = bucket.map id (List.map Occurrence.bare)
  | ⟨_, nodes⟩ => by rw [Bucket.bare, Bucket.map, bareNodes_eq_map nodes]

/-- Buckets without numbers are ones whose occurrences are mapped to ones without. -/
theorem bareBuckets_eq_map {D : Type} :
    ∀ buckets : List (Bucket D),
      bareBuckets buckets = mapBuckets id (List.map Occurrence.bare) buckets
  | [] => rfl
  | bucket :: rest => by
    rw [bareBuckets, mapBuckets, bucket.bare_eq_map, bareBuckets_eq_map rest]

/-- Nodes without numbers are ones whose occurrences are mapped to ones without. -/
theorem bareNodes_eq_map {D : Type} :
    ∀ nodes : List (Node D), bareNodes nodes = mapNodes id (List.map Occurrence.bare) nodes
  | [] => rfl
  | node :: rest => by rw [bareNodes, mapNodes, node.bare_eq_map, bareNodes_eq_map rest]
end

namespace Execution

/-- Numbers have no part in what is included and in arguments. -/
theorem unseen_bare (vars : Fields) : Unseen vars (List.map Occurrence.bare) :=
  .map (Occurrence.isIncluded_bare · vars) fun _ _ => rfl

/-- The numbers of selections do not show in a response. -/
theorem execute_bare (setting : Setting W O C T) (tree : SelectionTree (Definition W O C T))
    (root : O) (fuel : Nat) (world : W) :
    execute setting tree.bare root fuel world = execute setting tree root fuel world := by
  have htree : tree.bare = tree.map id (List.map Occurrence.bare) := by
    rw [SelectionTree.bare, SelectionTree.map, tree.root.bare_eq_map]
  rw [htree, execute_relabel (unseen_bare setting.vars)]

/-- Named fragments are transparent. A document whose fragments exist and do not spread each other
in a circle can be inlined, and every document that it inlines to has selection trees of the same
shape, or fails to have one for the same reason, and the same response to every request. -/
theorem executeRequest_inlines {document : Document} {rank : String → Nat}
    (h : document.SpreadsEnd rank) :
    (∃ document', document.Inlines document')
      ∧ ∀ document', document.Inlines document' → ∀ (setting : Setting W O C T)
        (name : Option String),
        (setting.registry.selectionTree document name).map SelectionTree.shape
            = (setting.registry.selectionTree document' name).map SelectionTree.shape
          ∧ ∀ (root : O) (fuel : Nat) (world : W),
            executeRequest setting document name root fuel world
              = executeRequest setting document' name root fuel world := by
  refine ⟨document.exists_inlines h, ?_⟩
  intro document' hi setting name
  unfold executeRequest
  obtain ⟨error, hb, hb'⟩ | ⟨tree, tree', hb, hb', hbare⟩ :=
    error_or_ok_of_map_eq (setting.registry.selectionTree_inlines hi name)
  · rw [hb, hb']
    exact ⟨rfl, fun root fuel world => rfl⟩
  · rw [hb, hb']
    constructor
    · show Except.ok tree.shape = Except.ok tree'.shape
      rw [← tree.shape_bare, hbare, tree'.shape_bare]
    · intro root fuel world
      show execute setting tree root fuel world = execute setting tree' root fuel world
      rw [← execute_bare setting tree, hbare, execute_bare]

/-- The animals without named fragments. -/
def inlinedAnimalDocument : Document where
  operations :=
    [⟨.query, none,
      [.field ⟨0, none, "pet", [], [], "Query", .named "Animal"⟩
        [.field ⟨1, none, "friend", [], [includeIf "all"], "Animal", .named "Animal"⟩
          [.field ⟨2, none, "__typename", [], [], "Animal", .nonNullNamed "String"⟩ []],
         .inlineFragment ⟨3, some "Dog", []⟩
          [.field ⟨4, none, "friend", [], [], "Dog", .nonNullNamed "Dog"⟩
            [.field ⟨5, none, "__typename", [], [], "Dog", .nonNullNamed "String"⟩ []]]]]⟩]
  fragments := []

/-- A host whose pet is a dog with a friend. -/
def animalSetting : Setting Unit Unit Unit Unit :=
  let bare : Setting Unit Unit Unit Unit := bareSetting fun _ => .ready (.ok .null)
  let dog : Json := .object [("__typename", .string "Dog")]
  let pet : Json := .object [("__typename", .string "Dog"), ("friend", dog)]
  { bare with
    host := { bare.host with call := fun _ _ _ world => (some (.ok (.value pet)), world) }
    registry := animalRegistry
    vars := [("all", .bool false)] }

/-- The friend is selected by the fragment alone, spread or inlined. -/
theorem executeRequest_inlines_animalDocument :
    (animalDocument.SpreadsEnd fun _ => 0) ∧ animalDocument.Inlines inlinedAnimalDocument
      ∧ ∃ answer, executeRequest animalSetting animalDocument none () 1 () = some (answer, ())
        ∧ executeRequest animalSetting inlinedAnimalDocument none () 1 () = some (answer, ())
        ∧ answer.data = some (.object [("pet",
          .object [("friend", .object [("__typename", .string "Dog")])])]) := by
  have hends : animalDocument.SpreadsEnd fun _ => 0 := by
    constructor
    · intro operation ho name hn
      rw [List.mem_singleton.1 ho] at hn
      rw [List.mem_singleton.1 hn]
      rfl
    · intro name fragment hf inner hi
      rw [List.mem_singleton.1 (List.mem_of_find?_eq_some hf)] at hi
      cases hi
  have hinlines : animalDocument.Inlines inlinedAnimalDocument := by
    refine .cons ⟨rfl, rfl, .cons (.field rfl (.cons ?_ (.cons ?_ .nil))) .nil⟩ .nil
    · exact .field rfl (.cons (.field rfl .nil) .nil)
    · exact .fragmentSpread rfl rfl rfl (.cons (.field rfl (.cons (.field rfl .nil) .nil)) .nil)
  have hrun : executeRequest animalSetting animalDocument none () 1 () = some _ := rfl
  have hsame := ((executeRequest_inlines hends).2 _ hinlines animalSetting none).2 () 1 ()
  exact ⟨hends, hinlines, _, hrun, hsame.symm.trans hrun, rfl⟩

end Execution

end QueryEngine
