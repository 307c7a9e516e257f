import Mathlib.Data.List.Induction
import Mathlib.Data.List.Nodup
import QueryEngine.Proofs.Entries
import QueryEngine.Proofs.Selection.Merge

/-!
# What a selection tree is made of

`picks` lists the field selections of a selection set that apply to one concrete type, whatever
their directives say, each with the selections it was reached through. A node of a selection tree is
determined by such a list (`Represents`): its data are those of the first field selection, its
occurrences and its definitions are those of the list, its buckets are those of the types that the
fields with sub-selections can have, and in each of them stand the keys that the sub-selections of
the list bring in, in the order in which they first occur, each with a node for the selections that
bring it in. Collecting selections adds their picks at the end of the lists (`collect_represents`),
so this holds of every tree that is built.
-/

namespace QueryEngine

/-- A field selection that was found, with its sub-selection. -/
structure Pick where
  field : Field
  selections : List Selection
  /-- The selections it was reached through. -/
  guards : List Guard

namespace Pick

/-- The key of the field in the response. -/
def key (pick : Pick) : String := pick.field.key

/-- What a node remembers of the selection. -/
def occurrence (pick : Pick) : Occurrence := ⟨pick.field, pick.guards⟩

end Pick

variable {D : Type}

namespace MergeContext

variable (context : MergeContext D)

/-- What one selection comes to for a concrete type, given what a selection set comes to. -/
def picksOne (deeper : List Selection → List Guard → List Pick) (concrete : String)
    (guards : List Guard) : Selection → List Pick
  | .field field selections => [⟨field, selections, guards⟩]
  | .inlineFragment fragment selections =>
    if fragment.condition?.all (context.schema.satisfies concrete) then
      deeper selections (guards ++ [.inlineFragment fragment])
    else []
  | .fragmentSpread spread =>
    match context.fragment? spread.fragment with
    | none => []
    | some fragment =>
      if context.schema.satisfies concrete fragment.condition then
        deeper fragment.selections (guards ++ [.fragmentSpread spread])
      else []

/-- The field selections of a selection set that apply to a concrete type, down to a depth of
fragments. -/
def picks : Nat → String → List Selection → List Guard → List Pick
  | 0, _, _, _ => []
  | depth + 1, concrete, selections, guards =>
    selections.flatMap (picksOne context (picks depth concrete) concrete guards)

/-- The field selections below some field selections that apply to a concrete type. -/
def below (depth : Nat) (found : List Pick) (concrete : String) : List Pick :=
  found.flatMap fun pick =>
    if concrete ∈ context.schema.possibleTypes pick.field.type.inner then
      context.picks depth concrete pick.selections (pick.guards ++ [.field pick.field])
    else []

/-- What is below two lists of field selections is what is below the one and then the other. -/
theorem below_append (depth : Nat) (found more : List Pick) (concrete : String) :
    context.below depth (found ++ more) concrete
      = context.below depth found concrete ++ context.below depth more concrete := by
  simp [below]

variable {context}

/-- Where collecting does not run out of depth, a greater depth finds nothing else. -/
theorem picks_of_collect {depth : Nat} {selections : List Selection} {types : List String}
    {guards : List Guard} {buckets buckets' : List (Bucket D)}
    (h : context.collect depth selections types guards buckets = .ok buckets') {more : Nat}
    (hle : depth ≤ more) (concrete : String) (outer : List Guard) :
    context.picks more concrete selections outer
      = context.picks depth concrete selections outer := by
  induction depth generalizing selections types guards buckets buckets' more outer with
  | zero => cases h
  | succ depth ih =>
    obtain ⟨more, rfl⟩ : ∃ m, more = m + 1 := ⟨more - 1, by omega⟩
    rw [picks, picks, List.flatMap_def, List.flatMap_def]
    refine congrArg List.flatten (List.map_congr_left ?_)
    intro selection hs
    obtain ⟨before, after, hstep⟩ := foldlM_ok_of_mem h hs
    cases selection with
    | field field inner => rfl
    | inlineFragment fragment inner =>
      simp only [picksOne]
      split
      · exact ih hstep (by omega) _
      · rfl
    | fragmentSpread spread =>
      simp only [picksOne]
      simp only [collectOne] at hstep
      split
      · rfl
      · rename_i fragment hf
        rw [hf] at hstep
        split
        · exact ih hstep (by omega) _
        · rfl

end MergeContext

/-! ## Nodes -/

/-- The nodes of the bucket for a type; none if there is no such bucket. -/
def Bucket.nodesOf (type : String) (buckets : List (Bucket D)) : List (Node D) :=
  ((buckets.find? (·.type == type)).map Bucket.nodes).getD []

namespace MergeContext

/-- The distinct definitions of the fields of field selections on a concrete type. -/
def definitionsOf (context : MergeContext D) (concrete : String) (found : List Pick) : List D :=
  found.foldl (fun known pick =>
    match context.definition? concrete pick.field.name with
    | some definition => context.addDefinition known definition
    | none => known) []

/-- The types that the fields among some field selections can have that have sub-selections. -/
def typesBelow (context : MergeContext D) (found : List Pick) : List String :=
  (found.flatMap fun pick =>
    if pick.selections.isEmpty then []
    else context.schema.possibleTypes pick.field.type.inner).eraseDups

/-- Whether the definition is there already when a field selection adds it. -/
theorem definitionsOf_concat (context : MergeContext D) (concrete : String) (found : List Pick)
    (pick : Pick) : context.definitionsOf concrete (found ++ [pick])
      = (context.definition? concrete pick.field.name).elim (context.definitionsOf concrete found)
        (context.addDefinition (context.definitionsOf concrete found)) := by
  rw [definitionsOf, definitionsOf, List.foldl_append, List.foldl_cons, List.foldl_nil]
  cases context.definition? concrete pick.field.name <;> rfl

/-- The definition of each of the field selections is there. -/
theorem any_definitionsOf {context : MergeContext D}
    (hsame : ∀ definition, context.sameDefinition definition definition) {concrete : String}
    {found : List Pick} {pick : Pick} (hp : pick ∈ found) {definition : D}
    (hd : context.definition? concrete pick.field.name = some definition) :
    (context.definitionsOf concrete found).any (context.sameDefinition · definition) := by
  induction found using List.reverseRecOn with
  | nil => cases hp
  | append_singleton found last ih =>
    rw [definitionsOf_concat]
    rcases List.mem_append.1 hp with hp | hp
    · have hknown := ih hp
      cases context.definition? concrete last.field.name with
      | none => exact hknown
      | some other =>
        show (context.addDefinition _ other).any _
        unfold addDefinition
        split
        · exact hknown
        · rw [List.any_append, hknown, Bool.true_or]
    · obtain rfl := List.mem_singleton.1 hp
      rw [hd]
      show (context.addDefinition _ definition).any _
      unfold addDefinition
      split
      · assumption
      · rw [List.any_append]
        simp [hsame definition]

/-- Each of the definitions is that of a field on the concrete type. -/
theorem exists_of_mem_definitionsOf {context : MergeContext D} {concrete : String}
    {found : List Pick} {definition : D} (h : definition ∈ context.definitionsOf concrete found) :
    ∃ name, context.definition? concrete name = some definition := by
  induction found using List.reverseRecOn with
  | nil => cases h
  | append_singleton found last ih =>
    rw [definitionsOf_concat] at h
    cases hd : context.definition? concrete last.field.name with
    | none =>
      rw [hd] at h
      exact ih h
    | some other =>
      rw [hd, Option.elim_some, addDefinition] at h
      split at h
      · exact ih h
      · rcases List.mem_append.1 h with h | h
        · exact ih h
        · rw [List.mem_singleton.1 h]
          exact ⟨_, hd⟩

/-- No definition is there twice. -/
theorem pairwise_definitionsOf (context : MergeContext D) (concrete : String)
    (found : List Pick) : (context.definitionsOf concrete found).Pairwise
      fun a b => context.sameDefinition a b = false := by
  induction found using List.reverseRecOn with
  | nil => exact .nil
  | append_singleton found last ih =>
    rw [definitionsOf_concat]
    cases context.definition? concrete last.field.name with
    | none => exact ih
    | some definition =>
      show (context.addDefinition _ definition).Pairwise _
      unfold addDefinition
      split
      · exact ih
      · rename_i hnone
        refine List.pairwise_append.2 ⟨ih, List.pairwise_singleton _ _, ?_⟩
        intro known hk other ho
        obtain rfl := List.mem_singleton.1 ho
        by_contra hsame
        exact hnone (List.any_eq_true.2 ⟨known, hk, by simpa using hsame⟩)

end MergeContext

/-- The data of the node are those of the field selection. -/
structure Node.StartedBy (node : Node D) (pick : Pick) : Prop where
  key : node.key = pick.key
  name : node.name = pick.field.name
  owner : node.owner = pick.field.owner
  type : node.type = pick.field.type
  isComposite : node.isComposite = ! pick.selections.isEmpty

/-- What a node of a concrete type remembers of the field selections of a list. -/
structure Node.Remembers (context : MergeContext D) (concrete : String) (found : List Pick)
    (node : Node D) : Prop where
  data : ∀ first ∈ found.head?, node.StartedBy first
  occurrences : node.occurrences = found.map Pick.occurrence
  definitions : node.definitions
    = if node.isTypename then [] else context.definitionsOf concrete found

/-- A node of a concrete type that is made of the field selections of a list. -/
inductive Represents (context : MergeContext D) (depth : Nat) :
    String → List Pick → Node D → Prop
  | intro {concrete : String} {found : List Pick} {node : Node D}
    (own : node.Remembers context concrete found)
    (types : node.buckets.map Bucket.type = context.typesBelow found)
    (keys : ∀ inner, (Bucket.nodesOf inner node.buckets).map Node.key
      = ((context.below depth found inner).map Pick.key).eraseDups)
    (children : ∀ inner, ∀ child ∈ Bucket.nodesOf inner node.buckets,
      Represents context depth inner
        ((context.below depth found inner).filter (·.key == child.key)) child) :
    Represents context depth concrete found node

/-- Nodes of a concrete type that are made of the field selections of a list, one for each key. -/
structure Lists (context : MergeContext D) (depth : Nat) (concrete : String) (found : List Pick)
    (nodes : List (Node D)) : Prop where
  keys : nodes.map Node.key = (found.map Pick.key).eraseDups
  children : ∀ child ∈ nodes,
    Represents context depth concrete (found.filter (·.key == child.key)) child

/-- A node stands for field selections exactly if it remembers them, has the buckets they call for
and lists in each of them what is below. -/
theorem represents_iff {context : MergeContext D} {depth : Nat} {concrete : String}
    {found : List Pick} {node : Node D} :
    Represents context depth concrete found node ↔ node.Remembers context concrete found
      ∧ node.buckets.map Bucket.type = context.typesBelow found
      ∧ ∀ inner, Lists context depth inner (context.below depth found inner)
        (Bucket.nodesOf inner node.buckets) := by
  constructor
  · rintro ⟨ho, ht, hk, hc⟩
    exact ⟨ho, ht, fun inner => ⟨hk inner, hc inner⟩⟩
  · rintro ⟨ho, ht, h⟩
    exact ⟨ho, ht, fun inner => (h inner).keys, fun inner => (h inner).children⟩

section
variable {context : MergeContext D} {depth : Nat} {concrete : String}

/-- There is a field selection for the key of every node that is listed. -/
theorem Lists.filter_ne_nil {found : List Pick} {nodes : List (Node D)}
    (h : Lists context depth concrete found nodes) {child : Node D} (hc : child ∈ nodes) :
    found.filter (·.key == child.key) ≠ [] := by
  intro hnone
  have hkey : child.key ∈ found.map Pick.key := by
    rw [← List.mem_eraseDups, ← h.keys]
    exact List.mem_map_of_mem hc
  obtain ⟨pick, hp, he⟩ := List.mem_map.1 hkey
  exact List.filter_eq_nil_iff.1 hnone pick hp (by simpa using he)

/-- Every node that is listed has its data from a field selection with its key. -/
theorem Lists.exists_first {found : List Pick} {nodes : List (Node D)}
    (h : Lists context depth concrete found nodes) {child : Node D} (hc : child ∈ nodes) :
    ∃ first ∈ found, first.key = child.key ∧ child.StartedBy first := by
  obtain ⟨first, rest, hfound⟩ := List.exists_cons_of_ne_nil (h.filter_ne_nil hc)
  have hfirst : first ∈ found.filter (·.key == child.key) := hfound ▸ List.mem_cons_self ..
  obtain ⟨hmem, hkey⟩ := List.mem_filter.1 hfirst
  have hown := (represents_iff.1 (h.children child hc)).1
  exact ⟨first, hmem, eq_of_beq hkey, hown.data first (by rw [hfound]; rfl)⟩

end

/-- The nodes for a type are those of its bucket. -/
theorem Node.nodesOf_of_children? {node : Node D} {concrete : String} {children : List (Node D)}
    (h : node.children? concrete = some children) :
    Bucket.nodesOf concrete node.buckets = children := by
  rw [Bucket.nodesOf, ← Node.children?, h]
  rfl

namespace Bucket

/-- An empty bucket has no nodes. -/
theorem nodesOf_ensure (type other : String) (buckets : List (Bucket D)) :
    nodesOf other (ensure type buckets) = nodesOf other buckets := by
  unfold ensure
  split
  · rfl
  · rw [nodesOf, nodesOf, List.find?_append]
    cases buckets.find? (·.type == other) with
    | some bucket => rfl
    | none =>
      rw [Option.none_or, List.find?_cons]
      split <;> rfl

/-- Opening buckets adds nodes to none of them. -/
theorem nodesOf_foldl_ensure (types : List String) (other : String) (buckets : List (Bucket D)) :
    nodesOf other (types.foldl (fun buckets type => ensure type buckets) buckets)
      = nodesOf other buckets := by
  induction types generalizing buckets with
  | nil => rfl
  | cons type rest ih => rw [List.foldl_cons, ih, nodesOf_ensure]

/-- Changing the bucket for a type changes its nodes, and no others. -/
theorem nodesOf_update {type : String}
    {change : List (Node D) → Except BuildError (List (Node D))}
    {buckets buckets' : List (Bucket D)}
    (h : update type change buckets = .ok buckets') :
    change (nodesOf type buckets) = .ok (nodesOf type buckets')
      ∧ ∀ other, other ≠ type → nodesOf other buckets' = nodesOf other buckets := by
  have hskip : ∀ {before : List (Bucket D)}, (∀ b ∈ before, b.type ≠ type) →
      before.find? (·.type == type) = none := fun hb =>
    List.find?_eq_none.2 fun b hm => by simpa using hb b hm
  rcases update_eq_ok h with ⟨before, bucket, after, nodes, rfl, hb, rfl, hc, rfl⟩ |
    ⟨hb, nodes, hc, rfl⟩
  · constructor
    · simp only [nodesOf, List.find?_append, hskip hb, Option.none_or, List.find?_cons_of_pos,
        beq_self_eq_true, Option.map_some, Option.getD_some]
      exact hc
    · intro other hne
      have hne : (bucket.type == other) = false := by simpa using hne.symm
      simp [nodesOf, List.find?_append, hne]
  · constructor
    · simp only [nodesOf, List.find?_append, hskip hb, Option.none_or, List.find?_cons_of_pos,
        beq_self_eq_true, Option.map_some, Option.getD_some, Option.map_none, Option.getD_none]
      exact hc
    · intro other hne
      have hne : (type == other) = false := by simpa using hne.symm
      simp [nodesOf, List.find?_append, hne]

end Bucket

/-! ## The types of buckets -/

namespace Bucket

/-- The types of buckets that are there, and then those that are added. -/
theorem types_foldl_ensure {known : List String} {buckets : List (Bucket D)}
    (h : buckets.map Bucket.type = known.eraseDups) (types : List String) :
    (types.foldl (fun buckets type => ensure type buckets) buckets).map Bucket.type
      = (known ++ types).eraseDups := by
  induction types generalizing known buckets with
  | nil => simpa using h
  | cons type rest ih =>
    have hstep : (ensure type buckets).map Bucket.type = (known ++ [type]).eraseDups := by
      have hany : buckets.any (·.type == type) ↔ type ∈ known := by
        rw [← List.mem_eraseDups, ← h, List.any_eq_true, List.mem_map]
        simp
      rw [eraseDups_concat, ensure]
      by_cases hm : type ∈ known
      · rw [if_pos hm, if_pos (hany.2 hm), h]
      · rw [if_neg hm, if_neg fun ht => hm (hany.1 ht), List.map_append, h, List.map_singleton]
    rw [List.foldl_cons, ih hstep, List.append_assoc, List.singleton_append]

/-- Changing a bucket that is there does not change what types there are. -/
theorem types_update {type : String}
    {change : List (Node D) → Except BuildError (List (Node D))}
    {buckets buckets' : List (Bucket D)} (hm : type ∈ buckets.map Bucket.type)
    (h : update type change buckets = .ok buckets') :
    buckets'.map Bucket.type = buckets.map Bucket.type := by
  rcases update_eq_ok h with ⟨before, bucket, after, nodes, rfl, -, rfl, -, rfl⟩ | ⟨hnone, -⟩
  · simp
  · obtain ⟨bucket, hb, ht⟩ := List.mem_map.1 hm
    exact absurd ht (hnone bucket hb)

/-- Where buckets have distinct types, each has the nodes of its type. -/
theorem nodesOf_of_mem {buckets : List (Bucket D)} (h : (buckets.map Bucket.type).Nodup)
    {bucket : Bucket D} (hb : bucket ∈ buckets) : nodesOf bucket.type buckets = bucket.nodes := by
  obtain ⟨other, ho⟩ : ∃ other, buckets.find? (·.type == bucket.type) = some other := by
    rw [← Option.isSome_iff_exists, List.find?_isSome]
    exact ⟨bucket, hb, beq_self_eq_true _⟩
  have htype : other.type = bucket.type := by simpa using List.find?_some ho
  have hsame : other = bucket :=
    List.inj_on_of_nodup_map h (List.mem_of_find?_eq_some ho) hb htype
  rw [nodesOf, ho, hsame]
  rfl

end Bucket

namespace MergeContext

variable {context : MergeContext D}

/-- Collecting selections for types that have buckets adds no bucket. -/
theorem types_collect {depth : Nat} {selections : List Selection} {types : List String}
    {guards : List Guard} {buckets buckets' : List (Bucket D)}
    (h : context.collect depth selections types guards buckets = .ok buckets')
    (ht : types ⊆ buckets.map Bucket.type) :
    buckets'.map Bucket.type = buckets.map Bucket.type := by
  induction depth generalizing selections types guards buckets buckets' with
  | zero => cases h
  | succ depth ih =>
    refine foldlM_keeps (P := fun after => after.map Bucket.type = buckets.map Bucket.type)
      (fun selection _ {before after} hstep hbefore => ?_) h rfl
    rw [← hbefore] at ht
    cases selection with
    | field field inner =>
      refine foldlM_keeps (P := fun after => after.map Bucket.type = buckets.map Bucket.type)
        (fun concrete hc {held held'} hupdate hheld => ?_) hstep hbefore
      rw [← hheld]
      refine Bucket.types_update ?_ hupdate
      rw [hheld, ← hbefore]
      exact ht hc
    | inlineFragment fragment inner =>
      simp only [collectOne] at hstep
      rw [← hbefore]
      refine ih hstep ?_
      split
      · exact List.Subset.trans (List.filter_subset_self _) ht
      · exact ht
    | fragmentSpread spread =>
      simp only [collectOne] at hstep
      split at hstep
      · cases hstep
        exact hbefore
      · rw [← hbefore]
        exact ih hstep (List.Subset.trans (List.filter_subset_self _) ht)

end MergeContext

/-! ## One more field selection -/

section
variable {context : MergeContext D} {depth : Nat}

/-- A field selection is recorded in a node: the first one makes the node. -/
theorem Node.Remembers.record {concrete : String} {found : List Pick} {node : Node D}
    (h : node.Remembers context concrete found) {field : Field} {selections : List Selection}
    (hf : found = [] → node = Node.ofField field (! selections.isEmpty)) (guards : List Guard) :
    (context.record field guards concrete node).Remembers context concrete
      (found ++ [⟨field, selections, guards⟩]) := by
  have hname : (context.record field guards concrete node).isTypename = node.isTypename := rfl
  constructor
  · intro first hfirst
    cases found with
    | nil =>
      obtain rfl : ⟨field, selections, guards⟩ = first := Option.some.inj hfirst
      rw [hf rfl]
      exact ⟨rfl, rfl, rfl, rfl, rfl⟩
    | cons other rest =>
      obtain rfl : other = first := Option.some.inj hfirst
      obtain ⟨hkey, hname, howner, htype, hcomposite⟩ := h.data other rfl
      exact ⟨hkey, hname, howner, htype, hcomposite⟩
  · show node.occurrences ++ [⟨field, guards⟩] = _
    rw [h.occurrences, List.map_append]
    rfl
  · rw [hname, MergeContext.record, MergeContext.definitionsOf, List.foldl_append]
    show (if node.isTypename then node.definitions else _) = _
    split
    · rename_i htypename
      simpa [htypename] using h.definitions
    · rename_i htypename
      rw [h.definitions, if_neg htypename]
      rfl

/-- Changing what is below a node does not change what it remembers. -/
theorem Node.Remembers.buckets {concrete : String} {found : List Pick} {node : Node D}
    (h : node.Remembers context concrete found) (buckets : List (Bucket D)) :
    ({ node with buckets } : Node D).Remembers context concrete found := by
  obtain ⟨hdata, hoccurrences, hdefinitions⟩ := h
  refine ⟨fun first hf => ?_, hoccurrences, hdefinitions⟩
  obtain ⟨hkey, hname, howner, htype, hcomposite⟩ := hdata first hf
  exact ⟨hkey, hname, howner, htype, hcomposite⟩

/-- Adding a field selection to the node of its key, or a new node for it. -/
theorem Lists.updateNode {concrete : String} {found : List Pick} {nodes nodes' : List (Node D)}
    {pick : Pick} {fresh : Node D} {change : Node D → Except BuildError (Node D)}
    (hl : Lists context depth concrete found nodes)
    (hf : fresh.key = pick.key ∧ Represents context depth concrete [] fresh)
    (hc : ∀ {found node node'}, change node = .ok node' →
      Represents context depth concrete found node → (found = [] → node = fresh) →
        node'.key = node.key ∧ Represents context depth concrete (found ++ [pick]) node')
    (h : Bucket.updateNode pick.key fresh change nodes = .ok nodes') :
    Lists context depth concrete (found ++ [pick]) nodes' := by
  have hmem : pick.key ∈ found.map Pick.key ↔ pick.key ∈ nodes.map Node.key := by
    rw [hl.keys, List.mem_eraseDups]
  -- The nodes for other keys stay as they are.
  have hother : ∀ node ∈ nodes, node.key ≠ pick.key →
      Represents context depth concrete ((found ++ [pick]).filter (·.key == node.key)) node := by
    intro node hn hne
    have hne : (pick.key == node.key) = false := by simpa using hne.symm
    simpa [List.filter_append, hne] using hl.children node hn
  rcases Bucket.updateNode_eq_ok h with ⟨before, node, after, node', rfl, hb, hk, hn, rfl⟩ |
    ⟨hnone, node', hn, rfl⟩
  · have hpresent : pick.key ∈ found.map Pick.key := hmem.2 (by simp [hk])
    have hnode : node ∈ before ++ node :: after := by simp
    obtain ⟨hkey, hrep⟩ := hc hn (hl.children node hnode) fun hnone =>
      absurd hnone (hl.filter_ne_nil hnode)
    have hafter : ∀ other ∈ after, other.key ≠ pick.key := by
      intro other ho he
      have hnodup := hl.keys ▸ nodup_eraseDups (found.map Pick.key)
      rw [List.map_append, List.map_cons, List.perm_middle.nodup_iff, List.nodup_cons] at hnodup
      exact hnodup.1 (List.mem_append_right _ (List.mem_map.2 ⟨other, ho, he.trans hk.symm⟩))
    constructor
    · have hsame : (before ++ node' :: after).map Node.key
          = (before ++ node :: after).map Node.key := by simp [hkey]
      rw [hsame, hl.keys, List.map_append, List.map_singleton, eraseDups_concat, if_pos hpresent]
    · intro other ho
      rcases List.mem_append.1 ho with ho | ho
      · exact hother other (by simp [ho]) (hb other ho)
      rcases List.mem_cons.1 ho with rfl | ho
      · have hsame : [pick].filter (·.key == node.key) = [pick] := by simp [hk]
        rw [hkey, List.filter_append, hsame]
        exact hrep
      · exact hother other (by simp [ho]) (hafter other ho)
  · have habsent : pick.key ∉ found.map Pick.key := by
      intro hp
      obtain ⟨node, hm, he⟩ := List.mem_map.1 (hmem.1 hp)
      exact hnone node hm he
    obtain ⟨hkey, hrep⟩ := hc hn hf.2 fun _ => rfl
    rw [hf.1] at hkey
    constructor
    · rw [List.map_append, List.map_singleton, List.map_append, List.map_singleton,
        eraseDups_concat, if_neg habsent, hl.keys, hkey]
    · intro other ho
      rcases List.mem_append.1 ho with ho | ho
      · exact hother other ho (hnone other ho)
      · rw [List.mem_singleton.1 ho, hkey, List.filter_append, List.filter_eq_nil_iff.2]
        · simpa using hrep
        · intro other ho he
          exact habsent (List.mem_map.2 ⟨other, ho, by simpa using he⟩)

/-- A field selection merged into a node is added to the list of the node, if collecting its
sub-selection adds the picks of that and no buckets. -/
theorem represents_mergeField {descend : Collector D} {field : Field}
    {selections : List Selection} {guards : List Guard} {concrete : String}
    (hd : ∀ {found : String → List Pick} {buckets buckets'},
      descend selections (context.schema.possibleTypes field.type.inner) (guards ++ [.field field])
          buckets = .ok buckets' →
        (∀ type, Lists context depth type (found type) (Bucket.nodesOf type buckets)) →
        ∀ type, Lists context depth type (found type ++
            if type ∈ context.schema.possibleTypes field.type.inner then
              context.picks depth type selections (guards ++ [.field field])
            else []) (Bucket.nodesOf type buckets'))
    (ht : ∀ {buckets buckets'}, descend selections
        (context.schema.possibleTypes field.type.inner) (guards ++ [.field field]) buckets
          = .ok buckets' →
        context.schema.possibleTypes field.type.inner ⊆ buckets.map Bucket.type →
          buckets'.map Bucket.type = buckets.map Bucket.type)
    {found : List Pick} {node node' : Node D}
    (h : context.mergeField descend field selections guards concrete node = .ok node')
    (hr : Represents context depth concrete found node)
    (hf : found = [] → node = Node.ofField field (! selections.isEmpty)) :
    node'.key = node.key
      ∧ Represents context depth concrete (found ++ [⟨field, selections, guards⟩]) node' := by
  obtain ⟨hown, htypes, hlists⟩ := represents_iff.1 hr
  have hrecord := hown.record hf guards
  have hbelow : ∀ type, context.below depth (found ++ [⟨field, selections, guards⟩]) type
      = context.below depth found type ++
        if type ∈ context.schema.possibleTypes field.type.inner then
          context.picks depth type selections (guards ++ [.field field])
        else [] := by
    intro type
    rw [MergeContext.below_append]
    simp [MergeContext.below]
  unfold MergeContext.mergeField at h
  split at h
  · rename_i hempty
    cases h
    refine ⟨rfl, represents_iff.2 ⟨hrecord, ?_, ?_⟩⟩
    · show node.buckets.map Bucket.type = _
      rw [htypes, MergeContext.typesBelow, MergeContext.typesBelow, List.flatMap_append,
        List.flatMap_singleton, if_pos hempty, List.append_nil]
    · intro type
      have hnone : context.picks depth type selections (guards ++ [.field field]) = [] := by
        rw [List.isEmpty_iff.1 hempty]
        cases depth <;> rfl
      rw [hbelow, hnone, ite_self, List.append_nil]
      exact hlists type
  · rename_i hempty
    obtain ⟨buckets, hb, rfl⟩ := map_eq_ok_iff.1 h
    have hensured := Bucket.types_foldl_ensure htypes
      (context.schema.possibleTypes field.type.inner)
    refine ⟨rfl, represents_iff.2 ⟨hrecord.buckets buckets, ?_, ?_⟩⟩
    · have hsubset : context.schema.possibleTypes field.type.inner
          ⊆ ((context.schema.possibleTypes field.type.inner).foldl
            (fun buckets type => Bucket.ensure type buckets) node.buckets).map Bucket.type := by
        intro type hm
        rw [hensured, List.mem_eraseDups]
        exact List.mem_append_right _ hm
      show buckets.map Bucket.type = _
      rw [MergeContext.typesBelow, List.flatMap_append, List.flatMap_singleton, if_neg hempty,
        ← hensured]
      exact ht hb hsubset
    · intro type
      rw [hbelow]
      refine hd hb (fun type => ?_) type
      rw [Bucket.nodesOf_foldl_ensure]
      exact hlists type

/-- What the steps of a fold add to the lists of the types, the fold adds. -/
theorem lists_foldlM {α : Type} {items : List α} (adds : α → String → List Pick)
    {step : List (Bucket D) → α → Except BuildError (List (Bucket D))}
    (hs : ∀ item ∈ items, ∀ {found : String → List Pick} {buckets buckets'},
      step buckets item = .ok buckets' →
        (∀ type, Lists context depth type (found type) (Bucket.nodesOf type buckets)) →
        ∀ type, Lists context depth type (found type ++ adds item type)
          (Bucket.nodesOf type buckets'))
    {found : String → List Pick} {buckets buckets' : List (Bucket D)}
    (h : items.foldlM step buckets = .ok buckets')
    (hl : ∀ type, Lists context depth type (found type) (Bucket.nodesOf type buckets))
    (type : String) :
    Lists context depth type (found type ++ items.flatMap (adds · type))
      (Bucket.nodesOf type buckets') := by
  induction items generalizing buckets found with
  | nil =>
    cases h
    simpa using hl type
  | cons item rest ih =>
    rw [List.foldlM_cons] at h
    obtain ⟨mid, hm, hr⟩ := bind_eq_ok_iff.1 h
    have hmid := hs item (List.mem_cons_self ..) hm hl
    simpa using ih (fun other ho => hs other (List.mem_cons_of_mem _ ho)) hr hmid

/-- What is put at one type is there once, if the type is among the ones gone through. -/
theorem flatMap_ite_eq {α : Type} {types : List String} (ht : types.Nodup) (type : String)
    (values : List α) : (types.flatMap fun other => if type = other then values else [])
      = if type ∈ types then values else [] := by
  induction types with
  | nil => rfl
  | cons first rest ih =>
    obtain ⟨hfirst, hrest⟩ := List.nodup_cons.1 ht
    rw [List.flatMap_cons, ih hrest]
    by_cases h : type = first
    · subst h
      simp [hfirst]
    · simp [h]

/-- A field selection is added to the lists of all types. -/
theorem lists_field {field : Field} {selections : List Selection} {guards : List Guard}
    {descend : Collector D} {types : List String} (ht : types.Nodup)
    (hc : ∀ {concrete found node node'},
      context.mergeField descend field selections guards concrete node = .ok node' →
        Represents context depth concrete found node →
        (found = [] → node = Node.ofField field (! selections.isEmpty)) → node'.key = node.key
          ∧ Represents context depth concrete (found ++ [⟨field, selections, guards⟩]) node')
    {found : String → List Pick} {buckets buckets' : List (Bucket D)}
    (h : context.collectOne descend types guards buckets (.field field selections) = .ok buckets')
    (hl : ∀ type, Lists context depth type (found type) (Bucket.nodesOf type buckets))
    (type : String) :
    Lists context depth type
      (found type ++ if type ∈ types then [⟨field, selections, guards⟩] else [])
      (Bucket.nodesOf type buckets') := by
  rw [← flatMap_ite_eq ht]
  refine lists_foldlM (fun concrete type =>
    if type = concrete then [⟨field, selections, guards⟩] else [])
    (fun concrete _ {found before after} hupdate hbefore type => ?_) h hl type
  obtain ⟨hchange, hkeep⟩ := Bucket.nodesOf_update hupdate
  by_cases htype : type = concrete
  · subst htype
    have hfresh : Represents context depth type []
        (Node.ofField field (! selections.isEmpty) : Node D) := by
      refine represents_iff.2 ⟨⟨nofun, rfl, ?_⟩, rfl, fun _ => ⟨rfl, nofun⟩⟩
      exact (ite_self _).symm
    rw [if_pos rfl]
    exact (hbefore type).updateNode ⟨rfl, hfresh⟩ hc hchange
  · rw [if_neg htype, List.append_nil, hkeep type htype]
    exact hbefore type

/-- Collecting a selection set adds its picks at the end of the lists for the types. -/
theorem collect_represents
    (hnd : ∀ type, (context.schema.possibleTypes type).Nodup) {limit : Nat} (hle : limit ≤ depth)
    {selections : List Selection} {types : List String} {guards : List Guard}
    {buckets buckets' : List (Bucket D)} {found : String → List Pick}
    (h : context.collect limit selections types guards buckets = .ok buckets')
    (ht : types.Nodup)
    (hl : ∀ type, Lists context depth type (found type) (Bucket.nodesOf type buckets)) :
    ∀ type, Lists context depth type (found type ++
        if type ∈ types then context.picks depth type selections guards else [])
      (Bucket.nodesOf type buckets') := by
  induction limit generalizing selections types guards buckets buckets' found with
  | zero => cases h
  | succ limit ih =>
    obtain ⟨depth, rfl⟩ : ∃ d, depth = d + 1 := ⟨depth - 1, by omega⟩
    have hpicks : ∀ type, (if type ∈ types then context.picks (depth + 1) type selections guards
        else []) = selections.flatMap fun selection => if type ∈ types then
          context.picksOne (context.picks depth type) type guards selection else [] := by
      intro type
      split
      · rfl
      · simp
    intro type
    rw [hpicks]
    refine lists_foldlM (fun selection type => if type ∈ types then
      context.picksOne (context.picks depth type) type guards selection else [])
      (fun selection _ {found before after} hstep hbefore type => ?_) h hl type
    -- Below a fragment one level of depth is enough, so nothing is lost.
    have hdeeper : ∀ {inner narrowed outer}, context.collect limit inner narrowed outer before
        = .ok after → context.picks depth type inner outer
          = context.picks (depth + 1) type inner outer := fun {_ _ outer} hcollect => by
      rw [MergeContext.picks_of_collect hcollect (by omega : limit ≤ depth) type outer,
        MergeContext.picks_of_collect hcollect (by omega : limit ≤ depth + 1) type outer]
    cases selection with
    | field field inner =>
      refine lists_field ht (fun {_ _ _ _} hmerge hrep hfirst => ?_) hstep hbefore type
      exact represents_mergeField (fun {_ _ _} hd hfound =>
        ih (by omega) hd (hnd _) hfound) MergeContext.types_collect hmerge hrep hfirst
    | inlineFragment fragment inner =>
      simp only [MergeContext.collectOne] at hstep
      simp only [MergeContext.picksOne]
      cases hcond : fragment.condition? with
      | none =>
        rw [hcond] at hstep
        have hinner := ih (by omega) hstep ht hbefore type
        rw [hdeeper hstep]
        simpa using hinner
      | some condition =>
        rw [hcond] at hstep
        have hinner := ih (by omega) hstep (ht.filter _) hbefore type
        rw [hdeeper hstep]
        simpa [MergeContext.narrow, List.mem_filter, ite_and] using hinner
    | fragmentSpread spread =>
      simp only [MergeContext.collectOne] at hstep
      simp only [MergeContext.picksOne]
      cases hfragment : context.fragment? spread.fragment with
      | none =>
        rw [hfragment] at hstep
        cases hstep
        simpa using hbefore type
      | some fragment =>
        rw [hfragment] at hstep
        have hinner := ih (by omega) hstep (ht.filter _) hbefore type
        dsimp only
        rw [hdeeper hstep]
        simpa [MergeContext.narrow, List.mem_filter, ite_and] using hinner

/-- The nodes below the root of a tree are made of the picks of the operation. -/
theorem SelectionTree.exists_buckets (hnd : ∀ type, (context.schema.possibleTypes type).Nodup)
    {limit : Nat} (hle : limit < depth) {operation : Operation} {rootType : String}
    {tree : SelectionTree D} (h : ofOperation context limit operation rootType = .ok tree) :
    ∃ buckets, tree = ⟨operation.kind, { Node.root rootType with buckets }⟩
      ∧ buckets.map Bucket.type = [rootType]
      ∧ ∀ type, Lists context depth type
        (if type = rootType then context.picks depth type operation.selections [] else [])
        (Bucket.nodesOf type buckets) := by
  obtain ⟨buckets, hb, rfl⟩ := map_eq_ok_iff.1 h
  have hempty : ∀ type, Lists context depth type []
      (Bucket.nodesOf type (Node.root rootType : Node D).buckets) := by
    intro type
    have hnone : Bucket.nodesOf type (Node.root rootType : Node D).buckets = [] := by
      rw [Node.root, Bucket.nodesOf, List.find?_cons]
      split <;> rfl
    rw [hnone]
    exact ⟨rfl, fun _ h => by cases h⟩
  refine ⟨buckets, rfl, MergeContext.types_collect hb (List.Subset.refl _), fun type => ?_⟩
  have hlists := collect_represents hnd hle hb (List.nodup_singleton rootType) hempty type
  simpa using hlists

/-- Below every node stand nodes that are made of the field selections of some lists. What holds of
the lists below the root, and below the field selections with one key in a list of which it holds,
holds of them all. -/
theorem exists_levels {Q : String → List Pick → Prop}
    (hb : ∀ {concrete found} key type, Q concrete found →
      Q type (context.below depth (found.filter (·.key == key)) type))
    {root node : Node D} {level : String → List Pick} (ht : (root.buckets.map Bucket.type).Nodup)
    (hl : ∀ type, Lists context depth type (level type) (Bucket.nodesOf type root.buckets))
    (hq : ∀ type, Q type (level type)) (hw : Node.Within root node) :
    ∃ level : String → List Pick, (node.buckets.map Bucket.type).Nodup
      ∧ (∀ type, Lists context depth type (level type) (Bucket.nodesOf type node.buckets))
      ∧ ∀ type, Q type (level type) := by
  induction hw with
  | root => exact ⟨level, ht, hl, hq⟩
  | @child parent child _ hc ih =>
    obtain ⟨level, hnodup, hlists, hall⟩ := ih
    obtain ⟨bucket, hbucket, hc⟩ := hc
    rw [← Bucket.nodesOf_of_mem hnodup hbucket] at hc
    obtain ⟨-, htypes, hbelow⟩ := represents_iff.1 ((hlists bucket.type).children child hc)
    exact ⟨_, htypes ▸ nodup_eraseDups _, hbelow, fun type => hb child.key type (hall bucket.type)⟩

/-- What holds of the field selections of the lists below the root, and below field selections of
which it holds, holds of all of which nodes are made. -/
theorem exists_lists {Q : String → Pick → Prop}
    (hb : ∀ {concrete type found pick}, (∀ outer ∈ found, Q concrete outer) →
      pick ∈ context.below depth found type → Q type pick)
    {root node : Node D} {level : String → List Pick} (ht : (root.buckets.map Bucket.type).Nodup)
    (hl : ∀ type, Lists context depth type (level type) (Bucket.nodesOf type root.buckets))
    (hq : ∀ type, ∀ pick ∈ level type, Q type pick) (hw : Node.Within root node) :
    ∃ level : String → List Pick, (node.buckets.map Bucket.type).Nodup
      ∧ (∀ type, Lists context depth type (level type) (Bucket.nodesOf type node.buckets))
      ∧ ∀ type, ∀ pick ∈ level type, Q type pick :=
  exists_levels (Q := fun type found => ∀ pick ∈ found, Q type pick)
    (fun _ _ hfound _ hp => hb (fun outer ho => hfound outer (List.mem_of_mem_filter ho)) hp)
    ht hl hq hw

/-- Every node below the root is made of some field selections. -/
theorem exists_represents {root node : Node D} {level : String → List Pick}
    (ht : (root.buckets.map Bucket.type).Nodup)
    (hl : ∀ type, Lists context depth type (level type) (Bucket.nodesOf type root.buckets))
    (hw : Node.Within root node) :
    node = root ∨ ∃ concrete found, Represents context depth concrete found node := by
  cases hw with
  | root => exact .inl rfl
  | child hparent hc =>
    obtain ⟨_, hnodup, hlists, -⟩ := exists_lists (Q := fun _ _ => True)
      (fun _ _ => trivial) ht hl (fun _ _ _ => trivial) hparent
    obtain ⟨bucket, hb, hc⟩ := hc
    rw [← Bucket.nodesOf_of_mem hnodup hb] at hc
    exact .inr ⟨_, _, (hlists _).children node hc⟩

end

end QueryEngine
