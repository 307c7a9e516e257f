import QueryEngine.Proofs.Selection.Fields

/-!
# Keys of a selection tree

A node below the root has the key of the field selection that it was made from, and merging further
selections into it leaves the key. So what holds of the keys of all fields of a document holds of
the keys of the nodes of its trees (`selectionTree_keysSatisfy`).
-/

namespace QueryEngine

variable {D : Type} {P : String → Prop}

/-- All nodes below the root have keys with the property. -/
def Node.KeysSatisfy (P : String → Prop) (root : Node D) : Prop :=
  ∀ node, Node.Within root node → ∀ child, node.IsChild child → P child.key

namespace Bucket

/-- The nodes and all nodes below them have keys with the property. -/
def KeysSatisfy (P : String → Prop) (nodes : List (Node D)) : Prop :=
  ∀ node ∈ nodes, P node.key ∧ node.KeysSatisfy P

/-- No nodes have only good keys. -/
theorem keysSatisfy_nil : KeysSatisfy P ([] : List (Node D)) := nofun

/-- Adding or changing the node of one key keeps all keys good, if the fresh node is good and the
change keeps a node so. -/
theorem KeysSatisfy.updateNode {key : String} {fresh : Node D}
    {change : Node D → Except BuildError (Node D)} {nodes nodes' : List (Node D)}
    (hn : KeysSatisfy P nodes) (hf : P fresh.key ∧ fresh.KeysSatisfy P)
    (hc : ∀ {node node'}, change node = .ok node' → node.KeysSatisfy P →
      node'.key = node.key ∧ node'.KeysSatisfy P)
    (h : updateNode key fresh change nodes = .ok nodes') : KeysSatisfy P nodes' := by
  have hchanged : ∀ {node node'}, change node = .ok node' → P node.key ∧ node.KeysSatisfy P →
      P node'.key ∧ node'.KeysSatisfy P := by
    intro node node' h hnode
    obtain ⟨hkey, hbelow⟩ := hc h hnode.2
    exact ⟨hkey ▸ hnode.1, hbelow⟩
  rcases updateNode_eq_ok h with ⟨before, node, after, node', rfl, -, -, hnode, rfl⟩ |
    ⟨-, node', hnode, rfl⟩
  · intro other ho
    rcases List.mem_append.1 ho with ho | ho
    · exact hn other (List.mem_append_left _ ho)
    · rcases List.mem_cons.1 ho with rfl | ho
      · exact hchanged hnode (hn node (by simp))
      · exact hn other (List.mem_append_right _ (List.mem_cons_of_mem _ ho))
  · intro other ho
    rcases List.mem_append.1 ho with ho | ho
    · exact hn other ho
    · exact List.mem_singleton.1 ho ▸ hchanged hnode hf

end Bucket

/-- The keys below a node have the property if those in its buckets and below have it. -/
theorem Node.keysSatisfy_iff {node : Node D} :
    node.KeysSatisfy P ↔ ∀ bucket ∈ node.buckets, Bucket.KeysSatisfy P bucket.nodes := by
  constructor
  · intro h bucket hb child hc
    have hchild : node.IsChild child := ⟨bucket, hb, hc⟩
    exact ⟨h node .root child hchild, fun inner hi => h inner (.of_child hchild hi)⟩
  · intro h inner hi child hc
    rcases hi.eq_or_of_child with rfl | ⟨next, ⟨bucket, hb, hn⟩, hw⟩
    · obtain ⟨bucket, hb, hc⟩ := hc
      exact (h bucket hb child hc).1
    · exact (h bucket hb next hn).2 inner hw child hc

namespace MergeContext

variable {context : MergeContext D}

/-- Collecting selections brings in the keys of their fields only. -/
theorem collect_keysSatisfy
    (hf : ∀ name fragment, context.fragment? name = some fragment →
      ∀ selection ∈ fragment.selections, selection.AllFields fun field => P field.key)
    {depth : Nat} {selections : List Selection}
    (hs : ∀ selection ∈ selections, selection.AllFields fun field => P field.key)
    {types : List String} {guards : List Guard} {buckets buckets' : List (Bucket D)}
    (h : context.collect depth selections types guards buckets = .ok buckets')
    (hb : ∀ bucket ∈ buckets, Bucket.KeysSatisfy P bucket.nodes) :
    ∀ bucket ∈ buckets', Bucket.KeysSatisfy P bucket.nodes := by
  induction depth generalizing selections types guards buckets buckets' with
  | zero => cases h
  | succ depth ih =>
    refine foldlM_keeps (P := fun buckets => ∀ bucket ∈ buckets, Bucket.KeysSatisfy P bucket.nodes)
      (fun selection hm {before after} hstep hbefore => ?_) h hb
    cases hs selection hm with
    | @field field inner own below =>
      refine foldlM_keeps
        (P := fun buckets => ∀ bucket ∈ buckets, Bucket.KeysSatisfy P bucket.nodes)
        (fun concrete _ {_ _} hupdate hb => ?_) hstep hbefore
      refine Bucket.forall_update Bucket.keysSatisfy_nil hb (fun {_ _} hnode hn => ?_) hupdate
      have hfresh : (Node.ofField field (! inner.isEmpty) : Node D).KeysSatisfy P :=
        Node.keysSatisfy_iff.2 fun _ h => by cases h
      refine hn.updateNode ⟨own, hfresh⟩ (fun {_ _} hmerge hbelow => ?_) hnode
      exact (mergeField_keeps Bucket.keysSatisfy_nil (ih below) hmerge
        (Node.keysSatisfy_iff.1 hbelow)).imp_right Node.keysSatisfy_iff.2
    | inlineFragment below => exact ih below hstep hbefore
    | @fragmentSpread spread =>
      simp only [collectOne] at hstep
      split at hstep
      · cases hstep
        exact hbefore
      · exact ih (hf _ _ ‹_›) hstep hbefore

end MergeContext

/-- The nodes of a tree have the keys of fields of the document. -/
theorem selectionTree_keysSatisfy {W O C T : Type} {registry : Registry W O C T}
    {document : Document} (hd : document.AllFields fun field => P field.key) {name : Option String}
    {tree : SelectionTree (Definition W O C T)}
    (h : registry.selectionTree document name = .ok tree) : tree.root.KeysSatisfy P := by
  obtain ⟨operation, rootType, ho, -, htree⟩ := Registry.exists_ofOperation h
  obtain ⟨buckets, hb, rfl⟩ := map_eq_ok_iff.1 htree
  refine Node.keysSatisfy_iff.2 (MergeContext.collect_keysSatisfy ?_ ?_ hb ?_)
  · exact fun _ fragment hf => hd.fragments fragment (List.mem_of_find?_eq_some hf)
  · exact hd.operations operation (Document.mem_operations ho)
  · intro bucket hm
    rw [List.mem_singleton.1 hm]
    exact Bucket.keysSatisfy_nil

end QueryEngine
