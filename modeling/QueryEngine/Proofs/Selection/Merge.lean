import QueryEngine.Execution.Run
import QueryEngine.Proofs.Selection.Within

/-!
# Merging keeps keys distinct

Merging a field selection changes one node of one bucket, or adds it (`Bucket.updateNode_eq_ok`,
`Bucket.update_eq_ok`). So no bucket ever has two nodes with one key, and every selection tree that
is built has distinct keys (`selectionTree_keysDistinct`).
-/

namespace QueryEngine

variable {D : Type}

/-- A mapped result is a value exactly if the result is one that is mapped to it. -/
theorem map_eq_ok_iff {ε α β : Type} {f : α → β} {x : Except ε α} {b : β} :
    x.map f = .ok b ↔ ∃ a, x = .ok a ∧ f a = b := by
  cases x <;> simp [Except.map]

/-- Two computations in a row yield a value exactly if the first one yields one from which the
second one yields it. -/
theorem bind_eq_ok_iff {ε α β : Type} {f : α → Except ε β} {x : Except ε α} {b : β} :
    (x >>= f) = .ok b ↔ ∃ a, x = .ok a ∧ f a = .ok b := by
  cases x <;> simp [bind, Except.bind]

namespace Bucket

/-- A node with the key is changed in its place, or a fresh one is changed and put at the end. -/
theorem updateNode_eq_ok {key : String} {fresh : Node D}
    {change : Node D → Except BuildError (Node D)} {nodes nodes' : List (Node D)}
    (h : updateNode key fresh change nodes = .ok nodes') :
    (∃ before node after node', nodes = before ++ node :: after ∧ (∀ n ∈ before, n.key ≠ key)
        ∧ node.key = key ∧ change node = .ok node' ∧ nodes' = before ++ node' :: after)
      ∨ (∀ n ∈ nodes, n.key ≠ key) ∧ ∃ node', change fresh = .ok node'
        ∧ nodes' = nodes ++ [node'] := by
  induction nodes generalizing nodes' with
  | nil =>
    obtain ⟨node', hc, rfl⟩ := map_eq_ok_iff.1 h
    exact .inr ⟨nofun, node', hc, rfl⟩
  | cons node rest ih =>
    unfold updateNode at h
    split at h
    · rename_i hkey
      obtain ⟨node', hc, rfl⟩ := map_eq_ok_iff.1 h
      exact .inl ⟨[], node, rest, node', rfl, nofun, hkey, hc, rfl⟩
    · rename_i hkey
      obtain ⟨rest', hr, rfl⟩ := map_eq_ok_iff.1 h
      rcases ih hr with ⟨before, old, after, new, rfl, hb, hk, hc, rfl⟩ | ⟨hn, new, hc, rfl⟩
      · refine .inl ⟨node :: before, old, after, new, rfl, ?_, hk, hc, rfl⟩
        exact List.forall_mem_cons.2 ⟨hkey, hb⟩
      · exact .inr ⟨List.forall_mem_cons.2 ⟨hkey, hn⟩, new, hc, rfl⟩

/-- The bucket for the type is changed in its place, or an empty one is changed and put at the
end. -/
theorem update_eq_ok {type : String} {change : List (Node D) → Except BuildError (List (Node D))}
    {buckets buckets' : List (Bucket D)} (h : update type change buckets = .ok buckets') :
    (∃ before bucket after nodes, buckets = before ++ bucket :: after
        ∧ (∀ b ∈ before, b.type ≠ type) ∧ bucket.type = type ∧ change bucket.nodes = .ok nodes
        ∧ buckets' = before ++ ⟨type, nodes⟩ :: after)
      ∨ (∀ b ∈ buckets, b.type ≠ type) ∧ ∃ nodes, change [] = .ok nodes
        ∧ buckets' = buckets ++ [⟨type, nodes⟩] := by
  induction buckets generalizing buckets' with
  | nil =>
    obtain ⟨nodes, hc, rfl⟩ := map_eq_ok_iff.1 h
    exact .inr ⟨nofun, nodes, hc, rfl⟩
  | cons bucket rest ih =>
    unfold update at h
    split at h
    · rename_i htype
      obtain ⟨nodes, hc, rfl⟩ := map_eq_ok_iff.1 h
      exact .inl ⟨[], bucket, rest, nodes, rfl, nofun, htype, hc, rfl⟩
    · rename_i htype
      obtain ⟨rest', hr, rfl⟩ := map_eq_ok_iff.1 h
      rcases ih hr with ⟨before, old, after, nodes, rfl, hb, ht, hc, rfl⟩ | ⟨hn, nodes, hc, rfl⟩
      · refine .inl ⟨bucket :: before, old, after, nodes, rfl, ?_, ht, hc, rfl⟩
        exact List.forall_mem_cons.2 ⟨htype, hb⟩
      · exact .inr ⟨List.forall_mem_cons.2 ⟨htype, hn⟩, nodes, hc, rfl⟩

/-- Nodes with distinct keys, and with distinct keys below them. -/
def Distinct (nodes : List (Node D)) : Prop :=
  (nodes.map Node.key).Nodup ∧ ∀ node ∈ nodes, node.KeysDistinct

/-- Adding or changing the node of one key keeps keys distinct, if the fresh node is of that key and
the change keeps keys. -/
theorem Distinct.updateNode {key : String} {fresh : Node D}
    {change : Node D → Except BuildError (Node D)} {nodes nodes' : List (Node D)}
    (hd : Distinct nodes) (hf : fresh.key = key ∧ fresh.KeysDistinct)
    (hc : ∀ {node node'}, change node = .ok node' → node.KeysDistinct →
      node'.key = node.key ∧ node'.KeysDistinct)
    (h : updateNode key fresh change nodes = .ok nodes') : Distinct nodes' := by
  rcases updateNode_eq_ok h with ⟨before, node, after, node', rfl, -, -, hn, rfl⟩ |
    ⟨hnone, node', hn, rfl⟩
  · obtain ⟨hkey, hdistinct⟩ := hc hn (hd.2 node (by simp))
    refine ⟨by simpa [hkey] using hd.1, ?_⟩
    intro other ho
    rcases List.mem_append.1 ho with ho | ho
    · exact hd.2 other (List.mem_append_left _ ho)
    · rcases List.mem_cons.1 ho with rfl | ho
      · exact hdistinct
      · exact hd.2 other (List.mem_append_right _ (List.mem_cons_of_mem _ ho))
  · obtain ⟨hkey, hdistinct⟩ := hc hn hf.2
    rw [hf.1] at hkey
    constructor
    · rw [List.map_append, List.nodup_append]
      refine ⟨hd.1, by simp, ?_⟩
      intro a ha b hb hab
      obtain ⟨other, ho, rfl⟩ := List.mem_map.1 ha
      exact hnone other ho (by simpa [hkey, hab] using hb)
    · intro other ho
      rcases List.mem_append.1 ho with ho | ho
      · exact hd.2 other ho
      · exact List.mem_singleton.1 ho ▸ hdistinct

/-- What holds of the nodes of every bucket and is kept by a change still does after it. -/
theorem forall_update {R : List (Node D) → Prop} (hnil : R []) {type : String}
    {change : List (Node D) → Except BuildError (List (Node D))}
    {buckets buckets' : List (Bucket D)} (hr : ∀ bucket ∈ buckets, R bucket.nodes)
    (hc : ∀ {nodes nodes'}, change nodes = .ok nodes' → R nodes → R nodes')
    (h : update type change buckets = .ok buckets') : ∀ bucket ∈ buckets', R bucket.nodes := by
  rcases update_eq_ok h with ⟨before, old, after, nodes, rfl, -, -, hn, rfl⟩ | ⟨-, nodes, hn, rfl⟩
  · intro bucket hb
    rcases List.mem_append.1 hb with hb | hb
    · exact hr bucket (List.mem_append_left _ hb)
    · rcases List.mem_cons.1 hb with rfl | hb
      · exact hc hn (hr old (by simp))
      · exact hr bucket (List.mem_append_right _ (List.mem_cons_of_mem _ hb))
  · intro bucket hb
    rcases List.mem_append.1 hb with hb | hb
    · exact hr bucket hb
    · rw [List.mem_singleton.1 hb]
      exact hc hn hnil

end Bucket

/-- A node has distinct keys below it exactly if each of its buckets has. -/
theorem Node.keysDistinct_iff_distinct {node : Node D} :
    node.KeysDistinct ↔ ∀ bucket ∈ node.buckets, Bucket.Distinct bucket.nodes :=
  Node.keysDistinct_iff

/-- Opening a bucket adds an empty one at most. -/
theorem Bucket.mem_ensure {type : String} {buckets : List (Bucket D)} {bucket : Bucket D}
    (h : bucket ∈ Bucket.ensure type buckets) : bucket ∈ buckets ∨ bucket = ⟨type, []⟩ := by
  unfold Bucket.ensure at h
  split at h
  · exact .inl h
  · simpa using h

namespace MergeContext

variable {context : MergeContext D}

/-- The buckets of a node before its sub-selections are merged. -/
theorem forall_ensure {R : List (Node D) → Prop} (hnil : R []) {types : List String}
    {buckets : List (Bucket D)} (hr : ∀ bucket ∈ buckets, R bucket.nodes) :
    ∀ bucket ∈ types.foldl (fun buckets type => Bucket.ensure type buckets) buckets,
      R bucket.nodes := by
  induction types generalizing buckets with
  | nil => exact hr
  | cons type rest ih =>
    refine ih ?_
    intro bucket hb
    rcases Bucket.mem_ensure hb with hb | rfl
    · exact hr bucket hb
    · exact hnil

/-- Merging a field keeps the key, and of the buckets what collecting the sub-selections keeps. -/
theorem mergeField_keeps {R : List (Node D) → Prop} (hnil : R []) {descend : Collector D}
    {field : Field} {selections : List Selection}
    (hdesc : ∀ {types guards buckets buckets'},
      descend selections types guards buckets = .ok buckets' →
        (∀ bucket ∈ buckets, R bucket.nodes) → ∀ bucket ∈ buckets', R bucket.nodes)
    {guards : List Guard} {concrete : String} {node node' : Node D}
    (h : context.mergeField descend field selections guards concrete node = .ok node')
    (hr : ∀ bucket ∈ node.buckets, R bucket.nodes) :
    node'.key = node.key ∧ ∀ bucket ∈ node'.buckets, R bucket.nodes := by
  unfold mergeField at h
  split at h
  · cases h
    exact ⟨rfl, hr⟩
  · obtain ⟨buckets, hb, rfl⟩ := map_eq_ok_iff.1 h
    exact ⟨rfl, hdesc hb (forall_ensure hnil hr)⟩

/-- A fold of merges keeps what each of them keeps. -/
theorem foldlM_keeps {ε α β : Type} {P : β → Prop} {step : β → α → Except ε β} {items : List α}
    (hs : ∀ item ∈ items, ∀ {b b'}, step b item = .ok b' → P b → P b') {b b' : β}
    (h : items.foldlM step b = .ok b') (hb : P b) : P b' := by
  induction items generalizing b with
  | nil =>
    cases h
    exact hb
  | cons item rest ih =>
    rw [List.foldlM_cons] at h
    obtain ⟨mid, hm, hr⟩ := bind_eq_ok_iff.1 h
    exact ih (fun other ho => hs other (List.mem_cons_of_mem _ ho)) hr
      (hs item (List.mem_cons_self ..) hm hb)

/-- Each step of a fold that succeeds has succeeded. -/
theorem foldlM_ok_of_mem {ε α β : Type} {step : β → α → Except ε β} {items : List α} {b b' : β}
    (h : items.foldlM step b = .ok b') {item : α} (hi : item ∈ items) :
    ∃ before after, step before item = .ok after := by
  induction items generalizing b with
  | nil => cases hi
  | cons first rest ih =>
    rw [List.foldlM_cons] at h
    obtain ⟨mid, hm, hr⟩ := bind_eq_ok_iff.1 h
    rcases List.mem_cons.1 hi with rfl | hi
    · exact ⟨b, mid, hm⟩
    · exact ih hr hi

/-- Collecting selections keeps keys distinct. -/
theorem collect_keysDistinct {depth : Nat} {selections : List Selection} {types : List String}
    {guards : List Guard} {buckets buckets' : List (Bucket D)}
    (h : context.collect depth selections types guards buckets = .ok buckets')
    (hd : ∀ bucket ∈ buckets, Bucket.Distinct bucket.nodes) :
    ∀ bucket ∈ buckets', Bucket.Distinct bucket.nodes := by
  have hnil : Bucket.Distinct ([] : List (Node D)) := ⟨List.nodup_nil, nofun⟩
  induction depth generalizing selections types guards buckets buckets' with
  | zero => cases h
  | succ depth ih =>
    refine foldlM_keeps (P := fun buckets => ∀ bucket ∈ buckets, Bucket.Distinct bucket.nodes)
      (fun selection _ {before after} hstep hbefore => ?_) h hd
    cases selection with
    | field field inner =>
      refine foldlM_keeps (P := fun buckets => ∀ bucket ∈ buckets, Bucket.Distinct bucket.nodes)
        (fun concrete _ {_ _} hupdate hb => ?_) hstep hbefore
      refine Bucket.forall_update hnil hb (fun {_ _} hnode hn => ?_) hupdate
      have hfresh : (Node.ofField field (! inner.isEmpty) : Node D).KeysDistinct :=
        Node.keysDistinct_iff_distinct.2 fun _ h => by cases h
      refine hn.updateNode ⟨rfl, hfresh⟩ (fun {_ _} hmerge hd => ?_) hnode
      exact (mergeField_keeps hnil ih hmerge (Node.keysDistinct_iff_distinct.1 hd)).imp_right
        Node.keysDistinct_iff_distinct.2
    | inlineFragment fragment inner => exact ih hstep hbefore
    | fragmentSpread spread =>
      simp only [collectOne] at hstep
      split at hstep
      · cases hstep
        exact hbefore
      · exact ih hstep hbefore

end MergeContext

/-- Every selection tree that is built has distinct keys. -/
theorem selectionTree_keysDistinct {W O C T : Type} {registry : Registry W O C T}
    {document : Document} {name : Option String} {tree : SelectionTree (Definition W O C T)}
    (h : registry.selectionTree document name = .ok tree) : tree.root.KeysDistinct := by
  unfold Registry.selectionTree at h
  split at h
  · cases h
  · split at h
    · cases h
    · obtain ⟨buckets, hb, rfl⟩ := map_eq_ok_iff.1 h
      refine Node.keysDistinct_iff_distinct.2 (MergeContext.collect_keysDistinct hb ?_)
      intro bucket hm
      rw [List.mem_singleton.1 hm]
      exact ⟨List.nodup_nil, nofun⟩

end QueryEngine
