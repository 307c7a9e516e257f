import QueryEngine.Proofs.Selection.Collect
import QueryEngine.Proofs.Selection.Nesting

/-!
# Selection trees decide field collection

A selection tree is built once, whatever the directives say. While the operation is executed,
fields are collected object by object: those of the root object from the selections of the
operation, those of the object behind a key from the sub-selections of all fields that were
collected for the key. Along a chain of objects, each given by its type and one of its keys, both
come to the same (`selectionTree_collects`): the node at the end of the chain is included if and
only if every key of the chain is collected, and then for the field selections that are collected.
This needs a schema that keeps the rules and a document that fits it, as those do that are read from
texts (`Schema.wellFormed_of_ofText`, `Schema.fits_of_document?`).
-/

namespace QueryEngine

/-- A step from an object to the value of one of its fields: the type of the object and the key of
the field. -/
structure Hop where
  type : String
  key : String
deriving DecidableEq, Repr

/-- The node that a chain of hops leads to. -/
def Node.follow {D : Type} (node : Node D) : List Hop → Option (Node D)
  | [] => some node
  | hop :: rest => do
    let nodes ← node.children? hop.type
    let child ← nodes.find? (·.key == hop.key)
    child.follow rest

/-! ## Collecting along a chain -/

/-- The selections on the value of a key, from the fields that were collected for it. -/
def mergeSelections (found : List (Field × List Selection)) : List Selection :=
  found.flatMap Prod.snd

section
variable (collect : String → List Selection → List (Field × List Selection))

/-- What is collected for the key of the hop. -/
def Hop.collected (hop : Hop) (selections : List Selection) : List (Field × List Selection) :=
  (collect hop.type selections).filter (·.1.key == hop.key)

/-- Every key of the chain is collected, each from the selections on the value of the one before. -/
def Collects : List Selection → List Hop → Prop
  | _, [] => True
  | selections, hop :: rest =>
    hop.collected collect selections ≠ []
      ∧ Collects (mergeSelections (hop.collected collect selections)) rest

/-- The selections on the value that a chain leads to. -/
def selectionsAfter (selections : List Selection) (hops : List Hop) : List Selection :=
  hops.foldl (fun selections hop => mergeSelections (hop.collected collect selections)) selections

/-- The object type is one that the type of the hop declares for the fields behind its key. -/
def Hop.Declares (schema : Schema) (hop : Hop) (selections : List Selection) (type : String) :
    Prop :=
  ∀ found ∈ hop.collected collect selections,
    ∃ definition ∈ schema.field? hop.type found.1.name,
      type ∈ schema.possibleTypes definition.type.inner

/-- A chain of types that the objects can have: the first one is allowed, and the others are
declared by the hop before. -/
def IsChain (schema : Schema) : (String → Prop) → List Selection → List Hop → Prop
  | _, _, [] => True
  | allowed, selections, hop :: rest =>
    allowed hop.type
      ∧ IsChain schema (hop.Declares collect schema selections)
        (mergeSelections (hop.collected collect selections)) rest

/-- The selections on objects of a type behind a hop: sub-selections of the fields that can have
such objects as their values. -/
def Hop.below (schema : Schema) (hop : Hop) (level : String → List Selection) (type : String) :
    List Selection :=
  mergeSelections ((hop.collected collect (level hop.type)).filter
    fun found => type ∈ schema.possibleTypes found.1.type.inner)

/-- The selections on objects of a type behind a chain of hops. -/
def levelAfter (schema : Schema) (level : String → List Selection) (hops : List Hop) :
    String → List Selection :=
  hops.foldl (fun level hop => hop.below collect schema level) level

end

/-! ## Levels of a tree -/

section
variable {D : Type} {context : MergeContext D} {depth : Nat} {keep : List Directive → Bool}

/-- What is collected in the context. -/
def MergeContext.collects (context : MergeContext D) (keep : List Directive → Bool)
    (depth : Nat) : String → List Selection → List (Field × List Selection) :=
  collectFields context.schema context.fragment? keep depth

/-- Collecting from merged selections is collecting from each of them in turn. -/
theorem MergeContext.collects_mergeSelections {type : String}
    (found : List (Field × List Selection)) :
    context.collects keep depth type (mergeSelections found)
      = found.flatMap fun item => context.collects keep depth type item.2 :=
  collectFields_flatMap ..

/-- What is collected from a level for some type is what is kept of its picks. -/
def Agrees (context : MergeContext D) (depth : Nat) (keep : List Directive → Bool)
    (level : String → List Pick) (type : String) (selections : List Selection) : Prop :=
  ((level type).filter (·.isKept keep)).map Pick.found
    = context.collects keep depth type selections

/-- What is collected for a key is what is kept of its picks. -/
theorem Agrees.hop {level : String → List Pick} {hop : Hop} {selections : List Selection}
    (h : Agrees context depth keep level hop.type selections) :
    (((level hop.type).filter (·.key == hop.key)).filter (·.isKept keep)).map Pick.found
      = hop.collected (context.collects keep depth) selections := by
  rw [Hop.collected, ← h, List.filter_map, List.filter_filter, List.filter_filter]
  refine congrArg (List.map Pick.found) (List.filter_congr ?_)
  intro pick _
  exact Bool.and_comm ..

/-- Behind a hop, too, what is collected is what is kept. -/
theorem Agrees.below {level : String → List Pick} {hop : Hop} (above : String → List Selection)
    (h : Agrees context depth keep level hop.type (above hop.type)) (type : String) :
    Agrees context depth keep
      (context.below depth ((level hop.type).filter (·.key == hop.key))) type
      (hop.below (context.collects keep depth) context.schema above
        type) := by
  rw [Agrees, Hop.below, ← h.hop, MergeContext.collects_mergeSelections, MergeContext.below]
  generalize (level hop.type).filter (·.key == hop.key) = found
  induction found with
  | nil => rfl
  | cons pick rest ih =>
    rw [List.flatMap_cons, List.filter_append, List.map_append, ih]
    -- The picks below were reached through the pick itself.
    have hguards : ((pick.guards ++ [Guard.field pick.field]).all fun guard =>
        keep guard.directives) = pick.isKept keep := by
      rw [List.all_append, Bool.and_comm, Pick.isKept]
      simp [Guard.directives]
    by_cases hkept : pick.isKept keep
    · rw [List.filter_cons_of_pos hkept, List.map_cons]
      by_cases htype : type ∈ context.schema.possibleTypes pick.field.type.inner
      · rw [if_pos htype, List.filter_cons_of_pos (a := pick.found) (decide_eq_true htype),
          List.flatMap_cons, map_filter_picks keep depth type pick.selections (hguards.trans hkept)]
        rfl
      · rw [if_neg htype, List.filter_cons_of_neg (a := pick.found) (mt of_decide_eq_true htype)]
        rfl
    · rw [List.filter_cons_of_neg hkept]
      have hnone : (if type ∈ context.schema.possibleTypes pick.field.type.inner then
            context.picks depth type pick.selections (pick.guards ++ [.field pick.field])
          else []).filter (·.isKept keep) = [] := by
        split
        · exact filter_isKept_eq_nil (by simpa [hguards] using hkept)
        · rfl
      rw [hnone]
      rfl

/-- The picks below picks that fit the schema do so, too. -/
theorem fits_of_mem_below
    (hf : context.FragmentsFit)
    {found : List Pick} {concrete : String}
    (h : ∀ pick ∈ found, pick.Fits context.schema concrete) {type : String} {pick : Pick}
    (hp : pick ∈ context.below depth found type) : pick.Fits context.schema type := by
  obtain ⟨outer, ho, hp⟩ := List.mem_flatMap.1 hp
  split at hp
  · exact fits_of_mem_picks hf (Schema.satisfies_of_mem_possibleTypes ‹_›) (h outer ho).below hp
  · cases hp

/-! ## Nodes and what they are made of -/

/-- The node with a key is made of the picks with the key, and there are some. -/
theorem Lists.represents_of_find? {concrete : String} {found : List Pick} {nodes : List (Node D)}
    (hl : Lists context depth concrete found nodes) {key : String} {node : Node D}
    (h : nodes.find? (·.key == key) = some node) :
    Represents context depth concrete (found.filter (·.key == key)) node
      ∧ found.filter (·.key == key) ≠ [] := by
  obtain rfl : node.key = key := by simpa using List.find?_some h
  have hm := List.mem_of_find?_eq_some h
  exact ⟨hl.children node hm, hl.filter_ne_nil hm⟩

/-- There is a node with the key of a pick. -/
theorem Lists.exists_find? {concrete : String} {found : List Pick} {nodes : List (Node D)}
    (hl : Lists context depth concrete found nodes) {key : String}
    (h : found.filter (·.key == key) ≠ []) : ∃ node, nodes.find? (·.key == key) = some node := by
  obtain ⟨pick, hp⟩ := List.exists_mem_of_ne_nil _ h
  obtain ⟨hp, he⟩ := List.mem_filter.1 hp
  have hkey : pick.key ∈ nodes.map Node.key := by
    rw [hl.keys, List.mem_eraseDups]
    exact List.mem_map_of_mem hp
  obtain ⟨node, hn, hk⟩ := List.mem_map.1 hkey
  rw [← Option.isSome_iff_exists, List.find?_isSome]
  exact ⟨node, hn, by simpa [hk] using he⟩

/-- The included occurrences of a node are those that are kept of its picks. -/
theorem Represents.filter_isIncluded {concrete : String} {found : List Pick} {node : Node D}
    (h : Represents context depth concrete found node) (vars : Fields) :
    node.occurrences.filter (·.isIncluded vars)
      = (found.filter (·.isKept (Directive.include · vars))).map Pick.occurrence := by
  rw [(represents_iff.1 h).1.occurrences, List.filter_map]
  rfl

/-- A node is included if some of its picks are kept. -/
theorem Represents.isIncluded_iff {concrete : String} {found : List Pick} {node : Node D}
    (h : Represents context depth concrete found node) (hne : found ≠ []) (vars : Fields) :
    node.isIncluded vars ↔ found.filter (·.isKept (Directive.include · vars)) ≠ [] := by
  have hany : node.occurrences.any (·.isIncluded vars)
      ↔ node.occurrences.filter (·.isIncluded vars) ≠ [] := by
    rw [List.any_eq_true, Ne, List.filter_eq_nil_iff]
    simp
  have hsome : node.occurrences.isEmpty = false := by
    rw [(represents_iff.1 h).1.occurrences]
    simpa using hne
  rw [Node.isIncluded, hsome, Bool.false_or, hany, h.filter_isIncluded, Ne, List.map_eq_nil_iff]

/-- A chain leads on from the node that its first hop leads to. -/
theorem Node.follow_cons_eq_some {node last : Node D} {hop : Hop} {rest : List Hop} :
    node.follow (hop :: rest) = some last
      ↔ ∃ child, (Bucket.nodesOf hop.type node.buckets).find? (·.key == hop.key) = some child
        ∧ child.follow rest = some last := by
  rw [Node.follow, Node.children?, Bucket.nodesOf]
  cases node.buckets.find? (·.type == hop.type) with
  | none => simp
  | some bucket => simp [Option.bind_eq_some_iff]

/-! ## Along a chain -/

/-- The nodes below a node are made of the picks of a level. -/
def Spans (context : MergeContext D) (depth : Nat) (level : String → List Pick) (node : Node D) :
    Prop :=
  ∀ type, Lists context depth type (level type) (Bucket.nodesOf type node.buckets)

/-- The nodes below the next node are made of the picks below. -/
theorem Spans.hop {level : String → List Pick} {node child : Node D} {hop : Hop}
    (h : Spans context depth level node)
    (hc : (Bucket.nodesOf hop.type node.buckets).find? (·.key == hop.key) = some child) :
    Spans context depth (context.below depth ((level hop.type).filter (·.key == hop.key))) child :=
  (represents_iff.1 ((h hop.type).represents_of_find? hc).1).2.2

/-- If nothing is left out, what is collected is what is picked, and so are the keys of a bucket. -/
theorem Spans.keys_of_follow {level : String → List Pick} {above : String → List Selection}
    {node last : Node D} {hops : List Hop} (h : Spans context depth level node)
    (ha : ∀ type, Agrees context depth (fun _ => true) level type (above type))
    (hf : node.follow hops = some last) (type : String) :
    (Bucket.nodesOf type last.buckets).map Node.key =
      ((context.collects (fun _ => true) depth type
        (levelAfter (context.collects (fun _ => true) depth)
          context.schema above hops type)).map (·.1.key)).eraseDups := by
  induction hops generalizing node level above with
  | nil =>
    cases hf
    have hall : (level type).filter (·.isKept fun _ => true) = level type :=
      List.filter_eq_self.2 fun pick _ => by simp [Pick.isKept]
    rw [(h type).keys, levelAfter, List.foldl_nil, ← ha type, hall, List.map_map]
    rfl
  | cons hop rest ih =>
    obtain ⟨child, hc, hf⟩ := Node.follow_cons_eq_some.1 hf
    exact ih (h.hop hc) (fun type => (ha hop.type).below above type) hf

/-- The picks of a level fit the schema, and for the types that objects can have there, what is
kept of them is what is collected from some selections. -/
structure Stands (context : MergeContext D) (depth : Nat) (keep : List Directive → Bool)
    (allowed : String → Prop) (selections : List Selection) (level : String → List Pick) :
    Prop where
  fits : ∀ type, ∀ pick ∈ level type, pick.Fits context.schema type
  agrees : ∀ type, allowed type → Agrees context depth keep level type selections

/-- The next hop keeps this: an object type that the type of the object declares for a field is
one that the field can have wherever it was selected. -/
theorem Stands.hop (hs : context.schema.WellFormed)
    (hf : context.FragmentsFit)
    {allowed : String → Prop} {selections : List Selection} {level : String → List Pick}
    (h : Stands context depth keep allowed selections level) {hop : Hop} (hh : allowed hop.type) :
    Stands context depth keep
      (hop.Declares (context.collects keep depth) context.schema selections)
      (mergeSelections (hop.collected (context.collects keep depth) selections))
      (context.below depth ((level hop.type).filter (·.key == hop.key))) := by
  constructor
  · intro type pick hp
    have hkey : ∀ outer ∈ (level hop.type).filter (·.key == hop.key),
        outer.Fits context.schema hop.type :=
      fun outer ho => h.fits hop.type outer (List.mem_of_mem_filter ho)
    exact fits_of_mem_below hf hkey hp
  · intro type ht
    have hagrees := h.agrees hop.type hh
    have hpossible : ∀ found ∈ hop.collected
        (context.collects keep depth) selections,
        type ∈ context.schema.possibleTypes found.1.type.inner := by
      intro found hm
      obtain ⟨own, ho, hmem⟩ := ht found hm
      rw [← hagrees.hop] at hm
      obtain ⟨pick, hp, rfl⟩ := List.mem_map.1 hm
      have hfits := h.fits hop.type pick (List.mem_of_mem_filter (List.mem_of_mem_filter hp))
      obtain ⟨promised, hpromised, htype⟩ := hfits.defined
      have hsubset := hs.possibleTypes_subset hfits.satisfied hpromised ho hmem
      rw [htype] at hsubset
      exact hsubset
    have hbelow := hagrees.below (fun _ => selections) type
    rw [Hop.below, List.filter_eq_self.2 fun found hm => decide_eq_true (hpossible found hm)]
      at hbelow
    exact hbelow

section
variable {vars : Fields}

/-- A chain leads to an included node if and only if every key of it is collected. -/
theorem Stands.follow_iff (hs : context.schema.WellFormed)
    (hf : context.FragmentsFit)
    {allowed : String → Prop} {selections : List Selection} {level : String → List Pick}
    {node : Node D} {hop : Hop} {rest : List Hop} (hspans : Spans context depth level node)
    (h : Stands context depth (Directive.include · vars) allowed selections level)
    (hc : IsChain (context.collects (Directive.include · vars) depth)
      context.schema allowed selections (hop :: rest)) :
    (∃ last, node.follow (hop :: rest) = some last ∧ last.isIncluded vars)
      ↔ Collects (context.collects (Directive.include · vars) depth)
        selections (hop :: rest) := by
  induction rest generalizing allowed selections level node hop with
  | nil =>
    have hcollected := (h.agrees hop.type hc.1).hop
    rw [Collects, ← hcollected, Ne, List.map_eq_nil_iff]
    constructor
    · rintro ⟨last, hlast, hincluded⟩
      obtain ⟨child, hchild, hlast⟩ := Node.follow_cons_eq_some.1 hlast
      cases hlast
      obtain ⟨hrep, hne⟩ := (hspans hop.type).represents_of_find? hchild
      exact ⟨(hrep.isIncluded_iff hne vars).1 hincluded, trivial⟩
    · rintro ⟨hkept, -⟩
      obtain ⟨child, hchild⟩ :=
        (hspans hop.type).exists_find? fun hnone => hkept (by rw [hnone]; rfl)
      obtain ⟨hrep, hne⟩ := (hspans hop.type).represents_of_find? hchild
      exact ⟨child, Node.follow_cons_eq_some.2 ⟨child, hchild, rfl⟩,
        (hrep.isIncluded_iff hne vars).2 hkept⟩
  | cons next rest ih =>
    have hcollected := (h.agrees hop.type hc.1).hop
    have hnext := h.hop hs hf hc.1
    unfold Collects
    constructor
    · rintro ⟨last, hlast, hincluded⟩
      obtain ⟨child, hchild, hlast⟩ := Node.follow_cons_eq_some.1 hlast
      have hrest := (ih (hspans.hop hchild) hnext hc.2).1 ⟨last, hlast, hincluded⟩
      refine ⟨?_, hrest⟩
      intro hnone
      rw [hnone] at hrest
      exact hrest.1 (by rw [Hop.collected, MergeContext.collects_mergeSelections]; rfl)
    · rintro ⟨hne, hrest⟩
      rw [← hcollected, Ne, List.map_eq_nil_iff] at hne
      obtain ⟨child, hchild⟩ := (hspans hop.type).exists_find? fun hnone => hne (by rw [hnone]; rfl)
      obtain ⟨last, hlast, hincluded⟩ := (ih (hspans.hop hchild) hnext hc.2).2 hrest
      exact ⟨last, Node.follow_cons_eq_some.2 ⟨child, hchild, hlast⟩, hincluded⟩

/-- The included occurrences of the node that a chain leads to are the fields that are collected
for its last key. -/
theorem Stands.occurrences_of_follow (hs : context.schema.WellFormed)
    (hf : context.FragmentsFit)
    {allowed : String → Prop} {selections : List Selection} {level : String → List Pick}
    {node last : Node D} {above : List Hop} {hop : Hop} (hspans : Spans context depth level node)
    (h : Stands context depth (Directive.include · vars) allowed selections level)
    (hc : IsChain (context.collects (Directive.include · vars) depth)
      context.schema allowed selections (above ++ [hop]))
    (hlast : node.follow (above ++ [hop]) = some last) :
    (last.occurrences.filter (·.isIncluded vars)).map Occurrence.field
      = (hop.collected
          (context.collects (Directive.include · vars) depth)
          (selectionsAfter
            (context.collects (Directive.include · vars) depth)
            selections above)).map Prod.fst := by
  induction above generalizing allowed selections level node with
  | nil =>
    obtain ⟨child, hchild, hlast⟩ := Node.follow_cons_eq_some.1 hlast
    cases hlast
    have hrep := ((hspans hop.type).represents_of_find? hchild).1
    rw [selectionsAfter, List.foldl_nil, ← (h.agrees hop.type hc.1).hop, hrep.filter_isIncluded,
      List.map_map, List.map_map]
    rfl
  | cons first rest ih =>
    obtain ⟨child, hchild, hlast⟩ := Node.follow_cons_eq_some.1 hlast
    exact ih (hspans.hop hchild) (h.hop hs hf hc.1) hc.2 hlast

end

end

/-! ## Selection trees -/

section
variable {W O C T : Type} {registry : Registry W O C T} {document : Document}
  {name : Option String} {tree : SelectionTree (Definition W O C T)} {operation : Operation}
  {rootType : String} {depth : Nat}

/-- An operation that is found is one of the document. -/
theorem Document.mem_operations (ho : document.operation? name = some operation) :
    operation ∈ document.operations := by
  cases name with
  | some name => exact List.mem_of_find?_eq_some ho
  | none =>
    simp only [Document.operation?] at ho
    split at ho
    · rename_i only honly
      cases ho
      rw [honly]
      exact List.mem_singleton_self _
    · cases ho

/-- The nodes below the root are made of the picks of the operation. -/
theorem spans_root (hs : registry.schema.WellFormed)
    (h : registry.selectionTree document name = .ok tree)
    (ho : document.operation? name = some operation)
    (hr : registry.schema.root? operation.kind = some rootType)
    (hle : registry.configuration.recursionLimit < depth) :
    Spans (registry.mergeContext document) depth
      (fun type => if type = rootType then
        (registry.mergeContext document).picks depth type operation.selections [] else [])
      tree.root := by
  rw [Registry.selectionTree, ho] at h
  simp only [hr] at h
  obtain ⟨buckets, rfl, -, hlists⟩ := SelectionTree.exists_buckets hs.nodup_possibleTypes hle h
  exact hlists

/-- What is picked of an operation stands for what is collected for its root object. -/
theorem stands_root (depth : Nat) (hd : document.Fits registry.schema)
    (ho : document.operation? name = some operation)
    (hr : registry.schema.root? operation.kind = some rootType) (keep : List Directive → Bool) :
    Stands (registry.mergeContext document) depth keep (· = rootType) operation.selections
      (fun type => if type = rootType then
        (registry.mergeContext document).picks depth type operation.selections [] else []) := by
  constructor
  · intro type pick hp
    split at hp
    · rename_i htype
      obtain ⟨root, hroot, hselections⟩ := hd.operations operation (Document.mem_operations ho)
      obtain rfl : rootType = root := Option.some.inj (hr.symm.trans hroot)
      subst htype
      refine fits_of_mem_picks hd.fragmentsFit ?_ hselections hp
      simp [Registry.mergeContext, Schema.satisfies]
    · cases hp
  · rintro type rfl
    rw [Agrees, if_pos rfl]
    exact map_filter_picks keep depth type operation.selections rfl

/-- What is collected while an operation of the document is executed. -/
def Document.collectIncluded (document : Document) (schema : Schema) (vars : Fields)
    (depth : Nat) : String → List Selection → List (Field × List Selection) :=
  collectFields schema document.fragment? (Directive.include · vars) depth

/-- What would be collected if directives left nothing out. -/
def Document.collectAll (document : Document) (schema : Schema) (depth : Nat) :
    String → List Selection → List (Field × List Selection) :=
  collectFields schema document.fragment? (fun _ => true) depth

/-- An operation that nests within the recursion limit has a selection tree. The tree decides what
collecting the fields of each object decides while the operation is executed, for a document that
fits a schema which keeps the rules: a chain leads to an included node if and only if every key of
it is collected, and the included occurrences of the node are the fields that are collected for its
last key. In every bucket the keys stand in the order of their first occurrence, included or not. -/
theorem selectionTree_collects (ho : document.operation? name = some operation)
    (hr : registry.schema.root? operation.kind = some rootType)
    (hs : registry.schema.WellFormed) (hd : document.Fits registry.schema)
    (hle : registry.configuration.recursionLimit < depth) (vars : Fields) :
    (nestsWithin document.fragment? (registry.configuration.recursionLimit + 1)
        operation.selections → ∃ tree, registry.selectionTree document name = .ok tree)
      ∧ ∀ tree, registry.selectionTree document name = .ok tree →
        (∀ above hop,
          IsChain (document.collectIncluded registry.schema vars depth) registry.schema
              (· = rootType) operation.selections (above ++ [hop]) →
            ((∃ node, tree.root.follow (above ++ [hop]) = some node ∧ node.isIncluded vars)
                ↔ Collects (document.collectIncluded registry.schema vars depth)
                  operation.selections (above ++ [hop]))
              ∧ ∀ node, tree.root.follow (above ++ [hop]) = some node →
                (node.occurrences.filter (·.isIncluded vars)).map Occurrence.field
                  = (hop.collected (document.collectIncluded registry.schema vars depth)
                      (selectionsAfter (document.collectIncluded registry.schema vars depth)
                        operation.selections above)).map Prod.fst)
          ∧ ∀ hops node type children, tree.root.follow hops = some node →
            node.children? type = some children →
              children.map Node.key
                = ((document.collectAll registry.schema depth type
                    (levelAfter (document.collectAll registry.schema depth) registry.schema
                      (fun type => if type = rootType then operation.selections else []) hops
                      type)).map (·.1.key)).eraseDups := by
  refine ⟨exists_selectionTree ho hr, ?_⟩
  intro tree h
  have hspans := spans_root hs h ho hr hle
  constructor
  · intro above hop hc
    have hstands := stands_root depth hd ho hr (Directive.include · vars)
    constructor
    · obtain ⟨first, rest, hhops⟩ := List.exists_cons_of_ne_nil (l := above ++ [hop]) (by simp)
      rw [hhops] at hc ⊢
      exact hstands.follow_iff hs hd.fragmentsFit hspans hc
    · intro node hn
      exact hstands.occurrences_of_follow hs hd.fragmentsFit hspans hc hn
  · intro hops node type children hn hchildren
    have hnodes : Bucket.nodesOf type node.buckets = children := by
      rw [Bucket.nodesOf, ← Node.children?, hchildren]
      rfl
    rw [← hnodes]
    refine hspans.keys_of_follow ?_ hn type
    intro type
    -- For a type other than that of the root both sides are empty.
    rw [Agrees]
    split
    · exact map_filter_picks _ depth type operation.selections rfl
    · cases depth <;> rfl

end

/-- A schema in which a type has a friend of a narrower type than its interface promises. -/
def animalSchema : Schema where
  types := Schema.builtIn [] ++
    [⟨"Query", .object [] [{ name := "pet", type := .named "Animal" }]⟩,
     ⟨"Animal", .interface [] [{ name := "friend", type := .named "Animal" }]⟩,
     ⟨"Dog", .object ["Animal"] [{ name := "friend", type := .nonNullNamed "Dog" }]⟩]
  query := "Query"
  mutation := none
  subscription := none

/-- The directive that includes a selection if the variable holds. -/
def includeIf (name : String) : Directive :=
  ⟨"include", [("if", .variable name)]⟩

/-- Selections of the friends of an animal: one that depends on a variable, and a fragment. -/
def animalDocument : Document where
  operations :=
    [⟨.query, none,
      [.field ⟨0, none, "pet", [], [], "Query", .named "Animal"⟩
        [.field ⟨1, none, "friend", [], [includeIf "all"], "Animal", .named "Animal"⟩
          [.field ⟨2, none, "__typename", [], [], "Animal", .nonNullNamed "String"⟩ []],
         .fragmentSpread ⟨3, "Friends", []⟩]]⟩]
  fragments :=
    [⟨"Friends", "Dog",
      [.field ⟨4, none, "friend", [], [], "Dog", .nonNullNamed "Dog"⟩
        [.field ⟨5, none, "__typename", [], [], "Dog", .nonNullNamed "String"⟩ []]]⟩]

/-- Promising a narrower type than the interface does keeps the schema well formed. -/
theorem animalSchema_wellFormed : animalSchema.WellFormed :=
  ⟨[], _, rfl, by decide +kernel⟩

/-- Each field of the document is one that its owner declares. -/
theorem animalDocument_fits : animalDocument.Fits animalSchema := by
  constructor
  · simp only [animalDocument, List.forall_mem_singleton]
    refine ⟨"Query", rfl, .field rfl rfl rfl ?_⟩
    simp only [List.forall_mem_cons]
    refine ⟨.field rfl rfl rfl ?_, .fragmentSpread, nofun⟩
    simp only [List.forall_mem_singleton]
    exact .field rfl rfl rfl nofun
  · simp only [animalDocument, List.forall_mem_singleton]
    refine .field rfl rfl rfl ?_
    simp only [List.forall_mem_singleton]
    exact .field rfl rfl rfl nofun

/-- A registry without registrations. -/
def animalRegistry : Registry Unit Unit Unit Unit := { schema := animalSchema }

/-- Without the variable the friend's type is selected by the fragment alone. -/
theorem selectionTree_collects_animalDocument :
    ∃ tree, animalRegistry.selectionTree animalDocument none = .ok tree
      ∧ ∃ node, tree.root.follow [⟨"Query", "pet"⟩, ⟨"Dog", "friend"⟩, ⟨"Dog", "__typename"⟩]
          = some node
        ∧ (node.occurrences.filter (·.isIncluded [("all", .bool false)])).map (·.field.id)
          = [5] := by
  have hle : animalRegistry.configuration.recursionLimit < 513 := by decide
  have ho : animalDocument.operation? none = animalDocument.operations.head? := rfl
  have hr : animalRegistry.schema.root? .query = some "Query" := rfl
  obtain ⟨hbuilt, hcollects⟩ := selectionTree_collects ho hr animalSchema_wellFormed
    animalDocument_fits hle [("all", .bool false)]
  obtain ⟨tree, ht⟩ := hbuilt rfl
  obtain ⟨hiff, hfields⟩ :=
    (hcollects tree ht).1 [⟨"Query", "pet"⟩, ⟨"Dog", "friend"⟩] ⟨"Dog", "__typename"⟩
    ⟨rfl, List.forall_mem_singleton.2 ⟨_, rfl, by decide +kernel⟩,
      List.forall_mem_singleton.2 ⟨_, rfl, by decide +kernel⟩, trivial⟩
  obtain ⟨node, hn, -⟩ := hiff.2
    ⟨List.cons_ne_nil _ _, List.cons_ne_nil _ _, List.cons_ne_nil _ _, trivial⟩
  refine ⟨tree, ht, node, hn, ?_⟩
  have hids := congrArg (List.map Field.id) (hfields node hn)
  rw [List.map_map] at hids
  exact hids

end QueryEngine
