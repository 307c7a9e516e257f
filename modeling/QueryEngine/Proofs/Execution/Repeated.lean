import QueryEngine.Proofs.Execution.Transparent
import QueryEngine.Proofs.Selection.Doubling

/-!
# Repeated selections do not show in a response

An execution sees nothing of a selection tree but its shape: a node keeps its place in every
response when one occurrence with the same arguments, included in the same cases, stands in for its
occurrences, and nodes of one shape are the same nodes then (`Node.map_standIn_congr`). So trees of
one shape have one response (`execute_eq_of_shape_eq`), and a request cannot tell a document from
one in which selection sets have a copy of their own selections (`executeRequest_doubles`).
-/

namespace QueryEngine

/-! ## Stand-ins -/

/-- An occurrence with the arguments of the occurrences of a node, included if the node is. -/
def standIn (vars : Fields) (occurrences : List Occurrence) : List Occurrence :=
  [{ field :=
      { (default : Field) with
        arguments := argumentsOf occurrences
        directives := [⟨"include", [("if", .bool (someIncluded vars occurrences))]⟩] }
     guards := [] }]

/-- A stand-in is included exactly if one of the occurrences is. -/
theorem someIncluded_standIn (vars : Fields) (occurrences : List Occurrence) :
    someIncluded vars (standIn vars occurrences) = someIncluded vars occurrences := by
  have hinclude : Directive.include
      [⟨"include", [("if", .bool (someIncluded vars occurrences))]⟩] vars
        = someIncluded vars occurrences := rfl
  simp [standIn, someIncluded, Occurrence.isIncluded] at hinclude ⊢
  exact hinclude

section
variable {D : Type} (vars : Fields)

mutual

/-- Nodes of one shape cannot be told apart when stand-ins take the places of their occurrences. -/
theorem Node.map_standIn_congr : ∀ {node other : Node D}, node.shape = other.shape →
    node.map id (standIn vars) = other.map id (standIn vars)
  | ⟨key, name, owner, type, isComposite, occurrences, definitions, buckets⟩,
    ⟨key', name', owner', type', isComposite', occurrences', definitions', buckets'⟩, h => by
    simp only [Node.shape, Shape.node.injEq] at h
    obtain ⟨rfl, rfl, rfl, rfl, rfl, harguments, rfl, hincluded, hbuckets⟩ := h
    simp only [Node.arguments_eq] at harguments
    have hincluded : someIncluded vars occurrences = someIncluded vars occurrences' :=
      congrFun hincluded vars
    have hstand : standIn vars occurrences = standIn vars occurrences' := by
      rw [standIn, standIn, harguments, hincluded]
    rw [Node.map, Node.map, hstand, mapBuckets_standIn_congr hbuckets]

/-- Buckets of one shape are the same with stand-ins. -/
theorem Bucket.map_standIn_congr : ∀ {bucket other : Bucket D}, bucket.shape = other.shape →
    bucket.map id (standIn vars) = other.map id (standIn vars)
  | ⟨type, nodes⟩, ⟨type', nodes'⟩, h => by
    simp only [Bucket.shape, Prod.mk.injEq] at h
    obtain ⟨rfl, hnodes⟩ := h
    rw [Bucket.map, Bucket.map, mapNodes_standIn_congr hnodes]

/-- Lists of buckets of one shape are the same with stand-ins. -/
theorem mapBuckets_standIn_congr : ∀ {buckets others : List (Bucket D)},
    shapesOfBuckets buckets = shapesOfBuckets others →
      mapBuckets id (standIn vars) buckets = mapBuckets id (standIn vars) others
  | [], [], _ => rfl
  | bucket :: rest, other :: others, h => by
    obtain ⟨hbucket, hrest⟩ := List.cons.inj h
    rw [mapBuckets, mapBuckets, Bucket.map_standIn_congr hbucket, mapBuckets_standIn_congr hrest]

/-- Lists of nodes of one shape are the same with stand-ins. -/
theorem mapNodes_standIn_congr : ∀ {nodes others : List (Node D)},
    shapesOfNodes nodes = shapesOfNodes others →
      mapNodes id (standIn vars) nodes = mapNodes id (standIn vars) others
  | [], [], _ => rfl
  | node :: rest, other :: others, h => by
    obtain ⟨hnode, hrest⟩ := List.cons.inj h
    rw [mapNodes, mapNodes, Node.map_standIn_congr hnode, mapNodes_standIn_congr hrest]
end

end

namespace Execution

variable {W O C T : Type}

/-- An execution cannot tell stand-ins from occurrences. -/
theorem unseen_standIn (vars : Fields) : Unseen vars (standIn vars) where
  included := someIncluded_standIn vars
  overlay _ _ := rfl

/-- Trees of one shape have one response. -/
theorem execute_eq_of_shape_eq {tree other : SelectionTree (Definition W O C T)}
    (h : tree.shape = other.shape) (setting : Setting W O C T) (root : O) (fuel : Nat) (world : W) :
    execute setting tree root fuel world = execute setting other root fuel world := by
  obtain ⟨hkind, hshape⟩ := Prod.mk.inj h
  have hsame : tree.map id (standIn setting.vars) = other.map id (standIn setting.vars) := by
    rw [SelectionTree.map, SelectionTree.map, hkind, Node.map_standIn_congr setting.vars hshape]
  rw [← execute_relabel (unseen_standIn setting.vars) tree, hsame,
    execute_relabel (unseen_standIn setting.vars)]

/-- Merging is idempotent. A document and one in which some selection sets have a copy of their own
selections at the end have trees of one shape, or none for the same reason, no definition stands
twice in a node, and every request has the same response. -/
theorem executeRequest_doubles {document document' : Document} (h : document.Doubles document')
    (setting : Setting W O C T) (hs : setting.registry.schema.WellFormed) (name : Option String) :
    (setting.registry.selectionTree document name).map SelectionTree.shape
        = (setting.registry.selectionTree document' name).map SelectionTree.shape
      ∧ (∀ tree, setting.registry.selectionTree document' name = .ok tree →
        ∀ node, Node.Within tree.root node → (node.definitions.map Definition.id).Nodup)
      ∧ ∀ (root : O) (fuel : Nat) (world : W),
        executeRequest setting document name root fuel world
          = executeRequest setting document' name root fuel world := by
  have hshapes := setting.registry.selectionTree_doubles hs h name
  refine ⟨hshapes, fun tree ht node hw => setting.registry.nodup_definitions hs ht hw, ?_⟩
  intro root fuel world
  unfold executeRequest
  obtain ⟨error, hb, hb'⟩ | ⟨tree, tree', hb, hb', hshape⟩ := error_or_ok_of_map_eq hshapes
  · rw [hb, hb']
  · rw [hb, hb']
    exact execute_eq_of_shape_eq hshape setting root fuel world

/-- The animals with a copy of the pet's selections, in which the friend's type is selected twice,
and with a copy of the selections of the fragment. -/
def doubledAnimalDocument : Document :=
  let friend (id : Nat) (selections : List Selection) : Selection :=
    .field ⟨id, none, "friend", [], [includeIf "all"], "Animal", .named "Animal"⟩ selections
  let dogFriend (id : Nat) (selections : List Selection) : Selection :=
    .field ⟨id, none, "friend", [], [], "Dog", .nonNullNamed "Dog"⟩ selections
  let typename (id : Nat) (owner : String) : Selection :=
    .field ⟨id, none, "__typename", [], [], owner, .nonNullNamed "String"⟩ []
  { operations :=
      [⟨.query, none,
        [.field ⟨0, none, "pet", [], [], "Query", .named "Animal"⟩
          ([friend 1 [typename 2 "Animal"], .fragmentSpread ⟨3, "Friends", []⟩]
            ++ [friend 4 ([typename 5 "Animal"] ++ [typename 6 "Animal"]),
              .fragmentSpread ⟨7, "Friends", []⟩])]⟩]
    fragments :=
      [⟨"Friends", "Dog",
        [dogFriend 8 [typename 9 "Dog"]] ++ [dogFriend 10 [typename 11 "Dog"]]⟩] }

/-- The animals are the same ones when selected twice. -/
theorem executeRequest_doubles_animalDocument :
    animalDocument.Doubles doubledAnimalDocument ∧ animalSchema.WellFormed
      ∧ ∃ answer, executeRequest animalSetting animalDocument none () 1 () = some (answer, ())
        ∧ executeRequest animalSetting doubledAnimalDocument none () 1 () = some (answer, ())
        ∧ answer.data = some (.object [("pet",
          .object [("friend", .object [("__typename", .string "Dog")])])]) := by
  have hone : ∀ {field field' : Field}, field.bare = field'.bare →
      List.Forall₂ Selection.Doubles [.field field []] [.field field' []] := by
    intro field field' hf
    exact .cons (.field hf (.once .nil)) .nil
  have hdoubles : animalDocument.Doubles doubledAnimalDocument := by
    constructor
    · refine .cons ⟨rfl, rfl, .once (.cons (.field rfl (.twice ?_ ?_)) .nil)⟩ .nil
      · refine .cons (.field rfl (.once (hone rfl))) (.cons ?_ .nil)
        exact .fragmentSpread rfl rfl
      · refine .cons (.field rfl (.twice (hone rfl) (hone rfl))) (.cons ?_ .nil)
        exact .fragmentSpread rfl rfl
    · refine .cons ⟨rfl, rfl, .twice ?_ ?_⟩ .nil
      · exact .cons (.field rfl (.once (hone rfl))) .nil
      · exact .cons (.field rfl (.once (hone rfl))) .nil
  have hrun : executeRequest animalSetting animalDocument none () 1 () = some _ := rfl
  have hsame := (executeRequest_doubles hdoubles animalSetting animalSchema_wellFormed none).2.2
    () 1 ()
  exact ⟨hdoubles, animalSchema_wellFormed, _, hrun, hsame.symm.trans hrun, rfl⟩

end Execution

end QueryEngine
