import Mathlib.Algebra.BigOperators.Group.List.Basic
import Mathlib.Algebra.Order.Ring.Rat
import QueryEngine.Proofs.Language.Permuted
import QueryEngine.Proofs.Selection.Fields
import QueryEngine.Proofs.Selection.Pruning
import QueryEngine.Proofs.Selection.Shuffling
import QueryEngine.Selection.Cost

/-!
# What is left out costs nothing

With costs that are added and compared exactly, the cost of nodes is a sum (`costOfNodes_eq`) and
that of buckets a maximum (`costOfBuckets_le_iff`). A node that is not included adds nothing to the
sum, and a bucket without included nodes nothing to the maximum, so a tree costs the same as the
tree of the document without what its directives leave out (`selectionTree_cost_prune`). The two
trees have different nodes: a node may have its arguments from a field selection that is left out.
So field selections with one key have to select one field with the same arguments, as they do in a
document that is valid for the schema (`Document.Consistent`), and prices must not depend on the
order of arguments (`Price.Regular`). Without either condition the costs may differ
(`selectionTree_cost_prune_not`).
-/

namespace QueryEngine

variable {D α : Type}

/-! ## Sums and maxima -/

section
variable [AddCommMonoid α] [LinearOrder α] {vars : Fields} {rate : Node D → α → α}

omit [AddCommMonoid α] in
/-- In a linear order the greater of two costs is their maximum. -/
theorem greater_eq_max (a b : α) : greater a b = max a b :=
  (max_def_lt a b).symm

/-- A node that is left out costs nothing, any other what its rate makes of the costs below it. -/
theorem Node.cost_eq (node : Node D) : node.cost vars rate
    = if node.isTypename || ! node.isIncluded vars then 0
      else rate node (costOfBuckets vars rate 0 node.buckets) := by
  cases node
  rw [Node.cost]

/-- The cost of nodes is a sum. -/
theorem costOfNodes_eq (sum : α) (nodes : List (Node D)) :
    costOfNodes vars rate sum nodes = sum + (nodes.map (Node.cost vars rate)).sum := by
  induction nodes generalizing sum with
  | nil => rw [costOfNodes, List.map_nil, List.sum_nil, add_zero]
  | cons node rest ih => rw [costOfNodes, ih, List.map_cons, List.sum_cons, add_assoc]

/-- The cost of a bucket is the sum of the costs of its nodes. -/
theorem Bucket.cost_eq (bucket : Bucket D) :
    bucket.cost vars rate = (bucket.nodes.map (Node.cost vars rate)).sum := by
  cases bucket
  rw [Bucket.cost, costOfNodes_eq, zero_add]

/-- The cost of buckets is a maximum. -/
theorem costOfBuckets_le_iff {most bound : α} {buckets : List (Bucket D)} :
    costOfBuckets vars rate most buckets ≤ bound
      ↔ most ≤ bound ∧ ∀ bucket ∈ buckets, bucket.cost vars rate ≤ bound := by
  induction buckets generalizing most with
  | nil => simp [costOfBuckets]
  | cons bucket rest ih =>
    rw [costOfBuckets, ih, greater_eq_max, max_le_iff, List.forall_mem_cons, and_assoc]

/-- A type without a bucket adds nothing to the maximum. -/
theorem costOfBuckets_le_iff_nodesOf {bound : α} {buckets : List (Bucket D)}
    (h : (buckets.map Bucket.type).Nodup) : costOfBuckets vars rate 0 buckets ≤ bound
      ↔ 0 ≤ bound
        ∧ ∀ type, ((Bucket.nodesOf type buckets).map (Node.cost vars rate)).sum ≤ bound := by
  rw [costOfBuckets_le_iff]
  refine and_congr_right fun hbound => ⟨fun hb type => ?_, fun ht bucket hb => ?_⟩
  · cases hfind : buckets.find? (·.type == type) with
    | none =>
      rw [Bucket.nodesOf, hfind]
      exact hbound
    | some bucket =>
      rw [Bucket.nodesOf, hfind, Option.map_some, Option.getD_some, ← Bucket.cost_eq]
      exact hb bucket (List.mem_of_find?_eq_some hfind)
  · rw [Bucket.cost_eq, ← Bucket.nodesOf_of_mem h hb]
    exact ht bucket.type

/-- Buckets cost the same if for each type their nodes cost the same. -/
theorem costOfBuckets_congr {buckets buckets' : List (Bucket D)}
    (h : (buckets.map Bucket.type).Nodup) (h' : (buckets'.map Bucket.type).Nodup)
    (hn : ∀ type, ((Bucket.nodesOf type buckets).map (Node.cost vars rate)).sum
      = ((Bucket.nodesOf type buckets').map (Node.cost vars rate)).sum) :
    costOfBuckets vars rate 0 buckets = costOfBuckets vars rate 0 buckets' := by
  refine eq_of_forall_ge_iff fun bound => ?_
  rw [costOfBuckets_le_iff_nodesOf h, costOfBuckets_le_iff_nodesOf h']
  simp only [hn]

/-- What is not included can be left out of a sum. -/
theorem sum_cost_filter (nodes : List (Node D)) :
    ((nodes.filter (·.isIncluded vars)).map (Node.cost vars rate)).sum
      = (nodes.map (Node.cost vars rate)).sum := by
  induction nodes with
  | nil => rfl
  | cons node rest ih =>
    rw [List.filter_cons, List.map_cons, List.sum_cons]
    split
    case isTrue => rw [List.map_cons, List.sum_cons, ih]
    case isFalse hincluded =>
      have hfree : node.cost vars rate = 0 := by
        rw [Node.cost_eq, if_pos]
        simp [hincluded]
      rw [hfree, zero_add, ih]

/-- Lists of the same nodes, up to their costs and their order, cost the same. -/
theorem Shuffles.sum_cost_eq {nodes nodes' : List (Node D)}
    (h : Shuffles (fun node node' => node.cost vars rate = node'.cost vars rate) nodes nodes') :
    (nodes.map (Node.cost vars rate)).sum = (nodes'.map (Node.cost vars rate)).sum := by
  obtain ⟨middle, hm, hp⟩ := h
  have hcosts : nodes.map (Node.cost vars rate) = middle.map (Node.cost vars rate) := by
    clear hp
    induction hm with
    | nil => rfl
    | cons hr _ ih => rw [List.map_cons, List.map_cons, hr, ih]
  rw [hcosts, (hp.map _).sum_eq]

end

/-! ## Nodes -/

/-- Whether directives leave a selection in under the variables. -/
abbrev keptUnder (vars : Fields) (directives : List Directive) : Bool :=
  Directive.include directives vars

/-- The field selections select one field, and give it the same arguments. -/
structure Pick.SameField (pick other : Pick) : Prop where
  name : pick.field.name = other.field.name
  arguments : (Literal.object pick.field.arguments).Permuted (.object other.field.arguments)

section
variable {context : MergeContext D} {depth : Nat} {concrete : String} {vars : Fields}

/-- A node that is made of field selections of one field has the data of one of them. -/
theorem Node.Remembers.exists_first {found : List Pick} {node : Node D}
    (h : node.Remembers context concrete found)
    (hsame : ∀ definition, context.sameDefinition definition definition) (hne : found ≠ [])
    (hn : ∀ pick ∈ found, ∀ other ∈ found, pick.field.name = other.field.name) :
    ∃ first ∈ found, node.name = first.field.name ∧ node.arguments = first.field.arguments
      ∧ node.definitions = if first.field.name == "__typename" then []
        else (context.definition? concrete first.field.name).toList := by
  obtain ⟨first, rest, rfl⟩ := List.exists_cons_of_ne_nil hne
  have hfirst := List.mem_cons_self (a := first) (l := rest)
  have hname := (h.data first rfl).name
  refine ⟨first, hfirst, hname, ?_, ?_⟩
  · rw [Node.arguments, h.occurrences]
    rfl
  · rw [h.definitions, Node.isTypename, hname,
      context.definitionsOf_eq hsame concrete hne fun pick hp => hn pick hp first hfirst]

/-- A node is included if one of its field selections is kept. -/
theorem Node.Remembers.isIncluded_eq {found : List Pick} {node : Node D}
    (h : node.Remembers context concrete found) :
    node.isIncluded vars = (found.isEmpty || found.any (·.isKept (keptUnder vars))) := by
  rw [Node.isIncluded, h.occurrences, List.isEmpty_map, List.any_map]
  rfl

/-- A listed node is included if a field selection with its key is kept. -/
theorem Lists.isIncluded_iff {found : List Pick} {nodes : List (Node D)}
    (h : Lists context depth concrete found nodes) {child : Node D} (hc : child ∈ nodes) :
    child.isIncluded vars
      ↔ ∃ pick ∈ found, pick.isKept (keptUnder vars) ∧ pick.key = child.key := by
  have hsome := List.isEmpty_eq_false_iff.2 (h.filter_ne_nil hc)
  rw [(represents_iff.1 (h.children child hc)).1.isIncluded_eq, hsome, Bool.false_or,
    List.any_eq_true]
  simp only [List.mem_filter, beq_iff_eq, and_assoc, and_comm]

/-- The keys of the nodes that are included are those of the nodes that are listed for what is
kept. -/
theorem Lists.perm_keys_prune {found : List Pick} {nodes nodes' : List (Node D)}
    (h : Lists context depth concrete found nodes)
    (h' : Lists (context.prune (keptUnder vars)) depth concrete
      (prunePicks (keptUnder vars) found) nodes') :
    ((nodes.filter (·.isIncluded vars)).map Node.key).Perm (nodes'.map Node.key) := by
  have hnodup : (nodes.map Node.key).Nodup := h.keys ▸ nodup_eraseDups _
  have hnodup' : (nodes'.map Node.key).Nodup := h'.keys ▸ nodup_eraseDups _
  have hfiltered := hnodup.sublist ((List.filter_sublist (p := (·.isIncluded vars))).map Node.key)
  refine (List.perm_ext_iff_of_nodup hfiltered hnodup').2 fun key => ?_
  have hkey : key ∈ nodes.map Node.key ↔ ∃ pick ∈ found, pick.key = key := by
    rw [h.keys, List.mem_eraseDups, List.mem_map]
  have hkey' : key ∈ nodes'.map Node.key
      ↔ ∃ pick ∈ found, pick.isKept (keptUnder vars) ∧ pick.key = key := by
    rw [h'.keys, List.mem_eraseDups, mem_keys_prunePicks]
  rw [hkey']
  constructor
  · intro hm
    obtain ⟨child, hc, rfl⟩ := List.mem_map.1 hm
    obtain ⟨hc, hincluded⟩ := List.mem_filter.1 hc
    exact (h.isIncluded_iff hc).1 hincluded
  · rintro ⟨pick, hp, hkept, hpick⟩
    obtain ⟨child, hc, rfl⟩ := List.mem_map.1 (hkey.2 ⟨pick, hp, hpick⟩)
    have hincluded := (h.isIncluded_iff hc).2 ⟨pick, hp, hkept, hpick⟩
    exact List.mem_map_of_mem (List.mem_filter.2 ⟨hc, hincluded⟩)

variable [AddCommMonoid α] [LinearOrder α] {rate : Node D → α → α}

/-- Nodes cost what the nodes cost that are listed for what is kept, if each that is made of field
selections some of which are kept costs what the one does that is made of these. -/
theorem Lists.sum_cost_prune {found : List Pick} {nodes nodes' : List (Node D)}
    (h : Lists context depth concrete found nodes)
    (h' : Lists (context.prune (keptUnder vars)) depth concrete
      (prunePicks (keptUnder vars) found) nodes')
    (hc : ∀ child ∈ nodes, ∀ child',
      (∃ pick ∈ found.filter (·.key == child.key), pick.isKept (keptUnder vars)) →
      Represents (context.prune (keptUnder vars)) depth concrete
        (prunePicks (keptUnder vars) (found.filter (·.key == child.key))) child' →
          child.cost vars rate = child'.cost vars rate) :
    (nodes.map (Node.cost vars rate)).sum = (nodes'.map (Node.cost vars rate)).sum := by
  have hnodup : (nodes.map Node.key).Nodup := h.keys ▸ nodup_eraseDups _
  rw [← sum_cost_filter nodes]
  refine (Shuffles.of_keys (hnodup.sublist (List.filter_sublist.map Node.key))
    (h.perm_keys_prune h') fun child hm child' hc' hkey => ?_).sum_cost_eq
  obtain ⟨hm, hincluded⟩ := List.mem_filter.1 hm
  obtain ⟨pick, hp, hkept, hpick⟩ := (h.isIncluded_iff hm).1 hincluded
  refine hc child hm child' ⟨pick, List.mem_filter.2 ⟨hp, beq_iff_eq.2 hpick⟩, hkept⟩ ?_
  rw [hkey, ← filter_key_prunePicks]
  exact h'.children child' hc'

/-- What a field costs depends on its definition, its arguments and the cost of its sub-selection
only. -/
def ReadsArguments (rate : Node D → α → α) : Prop :=
  ∀ node node' : Node D, node.definitions = node'.definitions →
    (Literal.object node.arguments).Permuted (.object node'.arguments) →
      ∀ child, rate node child = rate node' child

/-- A node that is made of field selections of one field with the same arguments, as all below it
are, costs what the node costs that is made of those that are kept. -/
theorem Represents.cost_prune (hsame : ∀ definition, context.sameDefinition definition definition)
    (hrate : ReadsArguments rate) {found : List Pick} {node node' : Node D}
    (h : Represents context depth concrete found node)
    (h' : Represents (context.prune (keptUnder vars)) depth concrete
      (prunePicks (keptUnder vars) found) node')
    (hk : ∃ pick ∈ found, pick.isKept (keptUnder vars))
    (ha : ∀ pick ∈ found, ∀ other ∈ found, pick.SameField other)
    (hb : ∀ type, context.KeysAgree depth Pick.SameField (context.below depth found type)) :
    node.cost vars rate = node'.cost vars rate := by
  induction h generalizing node' with
  | @intro concrete found node own types keys children ih =>
    obtain ⟨own', types', hlists'⟩ := represents_iff.1 h'
    obtain ⟨kept, hm, hkept⟩ := hk
    have hpruned := mem_prunePicks.2 ⟨kept, hm, hkept, rfl⟩
    -- Both nodes have the data of some field selection, and these select one field.
    obtain ⟨first, hf, hname, harguments, hdefinitions⟩ := own.exists_first hsame
      (List.ne_nil_of_mem hm) fun pick hp other ho => (ha pick hp other ho).name
    obtain ⟨second, hs, hname', harguments', hdefinitions'⟩ := own'.exists_first hsame
      (List.ne_nil_of_mem hpruned) fun pick hp other ho => by
        obtain ⟨whole, hw, -, rfl⟩ := mem_prunePicks.1 hp
        obtain ⟨whole', hw', -, rfl⟩ := mem_prunePicks.1 ho
        exact (ha whole hw whole' hw').name
    obtain ⟨second, hsecond, -, rfl⟩ := mem_prunePicks.1 hs
    have hfield := ha first hf second hsecond
    have hnames : node.name = node'.name := hname.trans (hfield.name.trans hname'.symm)
    have hincluded : node.isIncluded vars = true := by
      rw [own.isIncluded_eq, List.any_eq_true.2 ⟨kept, hm, hkept⟩, Bool.or_true]
    have hincluded' : node'.isIncluded vars = true := by
      rw [own'.isIncluded_eq, List.any_eq_true.2 ⟨_, hpruned, hkept⟩, Bool.or_true]
    have hsameArguments : (Literal.object node.arguments).Permuted (.object node'.arguments) := by
      rw [harguments, harguments']
      exact hfield.arguments
    have hsameDefinitions : node.definitions = node'.definitions := by
      rw [hdefinitions, hdefinitions', hfield.name]
      rfl
    have hbuckets : costOfBuckets vars rate 0 node.buckets
        = costOfBuckets vars rate 0 node'.buckets := by
      refine costOfBuckets_congr (types ▸ nodup_eraseDups _) (types' ▸ nodup_eraseDups _) ?_
      intro type
      have hl' := hlists' type
      rw [MergeContext.below_prune] at hl'
      have hl : Lists context depth type _ _ := ⟨keys type, children type⟩
      exact hl.sum_cost_prune hl' fun child hc child' hk hr => ih type child hc hr hk
        (fun pick hp other ho => (hb type).filter hp ho) fun inner => (hb type).below _ inner
    rw [Node.cost_eq, Node.cost_eq, hincluded, hincluded', hbuckets,
      hrate node node' hsameDefinitions hsameArguments, Node.isTypename, Node.isTypename, hnames]

/-- The tree of a pruned operation costs what the tree of the operation costs. -/
theorem SelectionTree.cost_ofOperation_prune
    (hsame : ∀ definition, context.sameDefinition definition definition)
    (hnd : ∀ type, (context.schema.possibleTypes type).Nodup) (hrate : ReadsArguments rate)
    {limit : Nat} {operation : Operation} {rootType : String} {tree : SelectionTree D}
    (hk : ∀ type, context.KeysAgree (limit + 1) Pick.SameField
      (context.rootPicks (limit + 1) rootType operation.selections type))
    (h : ofOperation context limit operation rootType = .ok tree) :
    ∃ pruned, ofOperation (context.prune (keptUnder vars)) limit (operation.prune (keptUnder vars))
        rootType = .ok pruned ∧ tree.cost vars rate = pruned.cost vars rate := by
  obtain ⟨pruned, hpruned⟩ := exists_ofOperation_prune (keptUnder vars) h
  refine ⟨pruned, hpruned, ?_⟩
  have hnd' : ∀ type, ((context.prune (keptUnder vars)).schema.possibleTypes type).Nodup := hnd
  obtain ⟨buckets, rfl, htypes, hlists⟩ := exists_buckets hnd (Nat.lt_succ_self limit) h
  obtain ⟨buckets', rfl, htypes', hlists'⟩ :=
    exists_buckets hnd' (Nat.lt_succ_self limit) hpruned
  refine costOfBuckets_congr (htypes ▸ List.nodup_singleton _) (htypes' ▸ List.nodup_singleton _) ?_
  intro type
  have hpruned : (context.prune (keptUnder vars)).rootPicks (limit + 1) rootType
      (operation.prune (keptUnder vars)).selections type
      = prunePicks (keptUnder vars)
        (context.rootPicks (limit + 1) rootType operation.selections type) := by
    unfold MergeContext.rootPicks
    split
    · exact context.picks_prune _ _ _ rfl
    · rfl
  have hl' := hlists' type
  rw [← MergeContext.rootPicks, hpruned] at hl'
  exact (hlists type).sum_cost_prune hl' fun child hc child' hkept hr =>
    ((hlists type).children child hc).cost_prune hsame hrate hr hkept
      (fun pick hp other ho => (hk type).filter hp ho) fun inner => (hk type).below _ inner

end

/-! ## Prices -/

/-- The exact cost of a field, given the cost of its sub-selection. -/
inductive Price (α : Type) where
  /-- Added to the cost of the sub-selection. -/
  | constant (cost : α)
  /-- A function of the variables, of the arguments in their order, and of the cost of the
  sub-selection. -/
  | function (cost : Fields → Fields → α → α)

/-- The cost of a field. -/
def Price.evaluate [Add α] (price : Price α) (vars arguments : Fields) (child : α) : α :=
  match price with
  | .constant cost => cost + child
  | .function cost => cost vars arguments child

/-- The price does not depend on the order of the arguments, nor on the order of keys in them. -/
def Price.Regular [Add α] (price : Price α) : Prop :=
  ∀ vars {arguments arguments'}, SameArguments arguments arguments' →
    ∀ child, price.evaluate vars arguments child = price.evaluate vars arguments' child

/-- A constant price does not depend on arguments at all. -/
theorem Price.regular_constant [Add α] (cost : α) : (Price.constant cost).Regular :=
  fun _ _ _ _ _ => rfl

section
variable {W O C T : Type}

/-- If all prices are regular, what a field costs depends on its arguments in any order. -/
theorem Definition.readsArguments_rateBy [Add α] {prices : Definition W O C T → Price α}
    (hp : ∀ definition, (prices definition).Regular) (vars : Fields) :
    ReadsArguments
      (Definition.rateBy (fun definition => (prices definition).evaluate vars) vars) := by
  intro node node' hd ha child
  have hdefinition : node.definition? = node'.definition? := congrArg List.head? hd
  rw [rateBy, rateBy, hdefinition]
  cases node'.definition? with
  | none => rfl
  | some definition =>
    have hsame := definition.descriptor.sameArguments_coerceArguments ha vars
    exact hp definition vars hsame child

/-- Where field selections of the operation meet with one key, they select one field and give it the
same arguments. -/
def Document.Consistent (document : Document) (registry : Registry W O C T)
    (name : Option String) : Prop :=
  let context := registry.mergeContext document
  let depth := registry.configuration.recursionLimit + 1
  ∀ operation rootType, document.operation? name = some operation →
    registry.schema.root? operation.kind = some rootType → ∀ type,
      context.KeysAgree depth Pick.SameField
        (context.rootPicks depth rootType operation.selections type)

/-- What directives leave out costs nothing, whatever regular prices the fields have: the document
without it has a tree, which costs what the tree of the document costs. -/
theorem selectionTree_cost_prune [AddCommMonoid α] [LinearOrder α] (registry : Registry W O C T)
    (hs : registry.schema.WellFormed) {document : Document} {name : Option String}
    (hd : document.Consistent registry name) (vars : Fields)
    {prices : Definition W O C T → Price α} (hp : ∀ definition, (prices definition).Regular)
    {tree : SelectionTree (Definition W O C T)}
    (h : registry.selectionTree document name = .ok tree) :
    let rate := Definition.rateBy (fun definition => (prices definition).evaluate vars) vars
    ∃ pruned, registry.selectionTree (document.prune (keptUnder vars)) name = .ok pruned
      ∧ tree.cost vars rate = pruned.cost vars rate := by
  intro rate
  obtain ⟨operation, rootType, ho, hr, htree⟩ := Registry.exists_ofOperation h
  obtain ⟨pruned, hpruned, hcost⟩ := SelectionTree.cost_ofOperation_prune
    (fun definition => beq_self_eq_true definition.id) hs.nodup_possibleTypes
    (Definition.readsArguments_rateBy hp vars) (hd operation rootType ho hr) htree
  refine ⟨pruned, ?_, hcost⟩
  have hroot : registry.schema.root? (operation.prune (keptUnder vars)).kind = some rootType := hr
  simp only [Registry.selectionTree, Document.operation?_prune, ho, Option.map_some, hroot,
    Registry.mergeContext_prune]
  exact hpruned

/-! ## Documents that are consistent -/

/-- Where all fields with one key are one field with the same arguments, field selections are so
wherever they meet. -/
theorem MergeContext.keysAgree_of_allFields {context : MergeContext D} {P : Field → Prop}
    (hf : ∀ name fragment, context.fragment? name = some fragment →
      ∀ selection ∈ fragment.selections, selection.AllFields P)
    (hp : ∀ pick other : Pick, P pick.field → P other.field → pick.key = other.key →
      pick.SameField other) {depth : Nat} {found : List Pick}
    (ha : ∀ pick ∈ found, pick.AllFields P) : context.KeysAgree depth Pick.SameField found := by
  intro inner hw
  induction hw with
  | self found =>
    exact fun pick hpick other hother => hp pick other (ha pick hpick).own (ha other hother).own
  | deeper key type _ ih =>
    refine ih fun pick hpick => allFields_of_mem_below hf (fun outer houter => ?_) hpick
    exact ha outer (List.mem_of_mem_filter houter)

/-- A document is consistent if all its fields with one key are one field with the same
arguments. -/
theorem Document.consistent_of_allFields {registry : Registry W O C T} {document : Document}
    {name : Option String} {P : Field → Prop} (ha : document.AllFields P)
    (hp : ∀ pick other : Pick, P pick.field → P other.field → pick.key = other.key →
      pick.SameField other) : document.Consistent registry name := by
  intro operation rootType ho _ type
  have hfragments : ∀ name fragment, document.fragment? name = some fragment →
      ∀ selection ∈ fragment.selections, selection.AllFields P :=
    fun _ _ hf => ha.fragments _ (List.mem_of_find?_eq_some hf)
  refine MergeContext.keysAgree_of_allFields hfragments hp ?_
  unfold MergeContext.rootPicks
  split
  · exact fun pick hm => allFields_of_mem_picks hfragments
      (ha.operations operation (Document.mem_operations ho)) hm
  · exact nofun

/-- A schema with a stall and its goods. -/
def stallSchema : Schema where
  types := Schema.builtIn ["Int"] ++
    [⟨"Query", .object [] [{ name := "stall", type := .named "Stall" }]⟩,
     ⟨"Stall", .object []
        [{ name := "goods", type := .named "Goods"
           arguments := [⟨"first", .named "Int", none⟩, ⟨"after", .named "Int", none⟩] },
         { name := "sold", type := .named "Int" }]⟩,
     ⟨"Goods", .object [] [{ name := "price", type := .named "Int" }]⟩]
  query := "Query"
  mutation := none
  subscription := none

/-- The schema of stalls is well formed. -/
theorem stallSchema_wellFormed : stallSchema.WellFormed :=
  ⟨["Int"], _, rfl, by decide +kernel⟩

/-- The selection of a field without arguments. -/
def pickOut (owner name : String) (type : TypeRef) (directives : List Directive)
    (selections : List Selection) : Selection :=
  .field ⟨0, none, name, [], directives, owner, type⟩ selections

/-- The selection of some goods of a stall. -/
def selectGoods (arguments : List (String × Literal)) (directives : List Directive) : Selection :=
  .field ⟨0, none, "goods", arguments, directives, "Stall", .named "Goods"⟩
    [pickOut "Goods" "price" (.named "Int") [] []]

/-- The arguments of a field of a stall, in any order: only goods have some. -/
def stallArguments (name : String) : List (List (String × Literal)) :=
  if name = "goods" then
    [[("first", .int 2), ("after", .int 1)], [("after", .int 1), ("first", .int 2)]]
  else [[]]

/-- A document that selects goods twice, with the arguments in two orders. The first selection is
left out under the variable, and so is a fragment. -/
def stallDocument : Document where
  operations :=
    [⟨.query, none, [pickOut "Query" "stall" (.named "Stall") []
      [selectGoods [("first", .int 2), ("after", .int 1)] [⟨"skip", [("if", .variable "short")]⟩],
       .inlineFragment ⟨1, none, [includeIf "long"]⟩ [pickOut "Stall" "sold" (.named "Int") [] []],
       .fragmentSpread ⟨2, "Wares", []⟩]]⟩]
  fragments := [⟨"Wares", "Stall", [selectGoods [("after", .int 1), ("first", .int 2)] []]⟩]

/-- A registry without registrations. -/
def stallRegistry : Registry Unit Unit Unit Unit := { schema := stallSchema }

/-- The field has no alias, and the arguments of its name. -/
structure StallField (field : Field) : Prop where
  unaliased : field.alias? = none
  arguments : field.arguments ∈ stallArguments field.name

/-- Two argument lists of one field of a stall differ at most in the order of object keys and
arguments. -/
theorem permuted_of_mem_stallArguments {name : String}
    {arguments arguments' : List (String × Literal)} (h : arguments ∈ stallArguments name)
    (h' : arguments' ∈ stallArguments name) :
    (Literal.object arguments).Permuted (.object arguments') := by
  have hswap : ∀ {arguments arguments' : List (String × Literal)}, arguments.Perm arguments' →
      (arguments.map Prod.fst).Nodup → (Literal.object arguments).Permuted (.object arguments') :=
    fun hp hn => .object hn rfl (List.forall₂_same.2 fun literal _ => .refl literal) hp
  unfold stallArguments at h h'
  split at h <;> simp only [List.mem_cons, List.not_mem_nil, or_false] at h
  · rw [if_pos ‹_›] at h'
    simp only [List.mem_cons, List.not_mem_nil, or_false] at h'
    rcases h with rfl | rfl <;> rcases h' with rfl | rfl
    · exact .refl _
    · exact hswap (.swap ..) (by decide)
    · exact hswap (.swap ..) (by decide)
    · exact .refl _
  · rw [if_neg ‹_›, List.mem_singleton] at h'
    rw [h, h']
    exact .refl _

/-- Where selections of goods meet, they have the same arguments up to order. -/
theorem stallDocument_consistent : stallDocument.Consistent stallRegistry none := by
  have hplain : ∀ {owner name type directives selections}, name ≠ "goods" →
      (∀ selection ∈ selections, selection.AllFields StallField) →
        (pickOut owner name type directives selections).AllFields StallField := by
    intro owner name type directives selections hn hs
    refine .field ⟨rfl, ?_⟩ hs
    rw [stallArguments, if_neg hn]
    exact List.mem_singleton.2 rfl
  have hgoods : ∀ {arguments directives}, arguments ∈ stallArguments "goods" →
      (selectGoods arguments directives).AllFields StallField := by
    intro arguments directives ha
    exact .field ⟨rfl, ha⟩ (List.forall_mem_singleton.2 (hplain (by decide) nofun))
  refine Document.consistent_of_allFields (P := StallField) ⟨?_, ?_⟩ ?_
  · simp only [stallDocument, List.forall_mem_singleton]
    refine hplain (by decide) ?_
    simp only [List.forall_mem_cons]
    refine ⟨hgoods (List.mem_cons_self ..), .inlineFragment ?_, .fragmentSpread, nofun⟩
    exact List.forall_mem_singleton.2 (hplain (by decide) nofun)
  · simp only [stallDocument, List.forall_mem_singleton]
    exact hgoods (List.mem_cons_of_mem _ (List.mem_cons_self ..))
  · intro pick other hp ho hkey
    have hname : pick.field.name = other.field.name := by
      rwa [Pick.key, Pick.key, Field.key, Field.key, hp.unaliased, ho.unaliased] at hkey
    exact ⟨hname, permuted_of_mem_stallArguments hp.arguments (hname ▸ ho.arguments)⟩

/-- What is paid by the piece: the argument, and the cost of the sub-selection. -/
def byThePiece : Price ℚ :=
  .function fun _ arguments child =>
    (((arguments.lookup "first").bind Json.asUnsigned?).getD 1 : ℕ) + child

/-- An argument is found in any order. -/
theorem byThePiece_regular : byThePiece.Regular := by
  intro vars arguments arguments' h child
  have hfirst := h "first"
  simp only [byThePiece, Price.evaluate]
  generalize arguments.lookup "first" = first, arguments'.lookup "first" = first' at hfirst ⊢
  cases hfirst with
  | none => rfl
  | some h => cases h <;> rfl

/-- One field has a price, and every other field costs one. -/
def pricing (name : String) (price : Price ℚ) (definition : Definition Unit Unit Unit Unit) :
    Price ℚ :=
  if definition.descriptor.name = some name then price else .constant 1

/-- If that price is regular, all are. -/
theorem pricing_regular {price : Price ℚ} (h : price.Regular) (name : String)
    (definition : Definition Unit Unit Unit Unit) : (pricing name price definition).Regular := by
  unfold pricing
  split
  · exact h
  · exact Price.regular_constant 1

/-- The rate of a field where one field has a price. -/
def pricingRate (name : String) (price : Price ℚ) (vars : Fields) :
    Node (Definition Unit Unit Unit Unit) → ℚ → ℚ :=
  Definition.rateBy (fun definition => (pricing name price definition).evaluate vars) vars

/-- The variables under which the first selection of goods is left out, and the fragment. -/
def stallVars : Fields := [("short", .bool true), ("long", .bool false)]

/-- Two goods cost two, each field in them and around them one; what is left out would have cost
more. -/
theorem selectionTree_cost_prune_stallDocument :
    let rate := pricingRate "goods" byThePiece stallVars
    stallSchema.WellFormed ∧ stallDocument.Consistent stallRegistry none ∧ byThePiece.Regular
      ∧ ∃ tree pruned, stallRegistry.selectionTree stallDocument none = .ok tree
        ∧ stallRegistry.selectionTree (stallDocument.prune (keptUnder stallVars)) none = .ok pruned
        ∧ tree.cost stallVars rate = pruned.cost stallVars rate
        ∧ pruned.cost stallVars rate = 4 := by
  intro rate
  have htree : stallRegistry.selectionTree stallDocument none = .ok _ := rfl
  obtain ⟨pruned, hpruned, hcost⟩ := selectionTree_cost_prune stallRegistry stallSchema_wellFormed
    stallDocument_consistent stallVars (pricing_regular byThePiece_regular "goods") htree
  refine ⟨stallSchema_wellFormed, stallDocument_consistent, byThePiece_regular, _, pruned, htree,
    hpruned, hcost, hcost.symm.trans ?_⟩
  decide +kernel

/-- A price that depends on which argument comes first. -/
def byTheOrder : Price ℚ :=
  .function fun _ arguments _ => if arguments.head?.map Prod.fst = some "first" then 10 else 1

/-- A field of animals. -/
def nameField : FieldDef := { name := "name", type := .named "String" }

/-- A field of animals that play. -/
def toysField : FieldDef :=
  { name := "toys", type := .named "Int", arguments := [⟨"first", .named "Int", none⟩] }

/-- A schema with a pet, which may be a cat or whatever dogs are. -/
def playSchema (dog cat : TypeBody) : Schema where
  types := Schema.builtIn ["Int"] ++
    [⟨"Animal", .interface [] [nameField]⟩, ⟨"Dog", dog⟩, ⟨"Cat", cat⟩,
     ⟨"Query", .object [] [{ name := "pet", type := .named "Animal" }]⟩]
  query := "Query"
  mutation := none
  subscription := none

/-- Dogs are animals apart from cats. -/
def apartSchema : Schema :=
  playSchema (.object ["Animal"] [nameField, toysField])
    (.object ["Animal"] [nameField, toysField])

/-- Dogs are an interface that cats have. -/
def sharedSchema : Schema :=
  playSchema (.interface [] [toysField]) (.object ["Animal", "Dog"] [nameField, toysField])

/-- The selection of the toys of a pet that is of the type. -/
def selectToys (type : String) (first : Int) (directives : List Directive) : Selection :=
  .inlineFragment ⟨0, some type, []⟩
    [.field ⟨0, none, "toys", [("first", .int first)], directives, type, .named "Int"⟩ []]

/-- A document that selects other toys of dogs than of cats. Those of dogs are left out. -/
def toysDocument : Document where
  operations :=
    [⟨.query, none, [pickOut "Query" "pet" (.named "Animal") []
      [selectToys "Dog" 10 [⟨"skip", [("if", .bool true)]⟩], selectToys "Cat" 1 []]]⟩]
  fragments := []

/-- Whether the literals are the same whole numbers under the same names. -/
def sameNumbers : List (String × Literal) → List (String × Literal) → Bool
  | [], [] => true
  | (name, .int number) :: rest, (name', .int number') :: rest' =>
    name == name' && number == number' && sameNumbers rest rest'
  | _, _ => false

/-- Literals that are the same whole numbers under the same names are the same literals. -/
theorem eq_of_sameNumbers {arguments arguments' : List (String × Literal)}
    (h : sameNumbers arguments arguments' = true) : arguments = arguments' := by
  induction arguments, arguments' using sameNumbers.induct with
  | case1 => rfl
  | case2 name number rest name' number' rest' ih =>
    simp only [sameNumbers, Bool.and_eq_true, beq_iff_eq] at h
    obtain ⟨⟨rfl, rfl⟩, hrest⟩ := h
    rw [ih hrest]
  | case3 => simp [sameNumbers] at h

/-- The document is one of the schema where dogs are apart from cats. -/
theorem toysDocument_fits : toysDocument.Fits apartSchema := by
  refine ⟨List.forall_mem_singleton.2 ⟨"Query", rfl, List.forall_mem_singleton.2 ?_⟩, nofun⟩
  refine .field rfl rfl rfl ?_
  simp only [List.forall_mem_cons]
  exact ⟨.inlineFragment (List.forall_mem_singleton.2 (.field rfl rfl rfl nofun)),
    .inlineFragment (List.forall_mem_singleton.2 (.field rfl rfl rfl nofun)), nofun⟩

/-- There its two selections of toys never meet. -/
theorem toysDocument_consistent : toysDocument.Consistent (W := Unit) (O := Unit) (C := Unit)
    (T := Unit) { schema := apartSchema } none := by
  intro operation rootType ho hr type
  have hsame : ∀ pick other : Pick, (pick.field.name == other.field.name
      && sameNumbers pick.field.arguments other.field.arguments) = true →
        pick.SameField other := by
    intro pick other h
    rw [Bool.and_eq_true, beq_iff_eq] at h
    exact ⟨h.1, eq_of_sameNumbers h.2 ▸ .refl _⟩
  obtain rfl : ⟨.query, none, _⟩ = operation := Option.some.inj ho
  obtain rfl : "Query" = rootType := Option.some.inj hr
  by_cases htype : type = "Query"
  · subst htype
    exact MergeContext.keysAgree_of_checks hsame 3 (by decide +kernel)
  · rw [MergeContext.rootPicks, if_neg htype]
    exact MergeContext.keysAgree_of_checks hsame 0 rfl

/-- The schema in which cats have the interface of dogs is well formed. -/
theorem sharedSchema_wellFormed : sharedSchema.WellFormed :=
  ⟨["Int"], _, rfl, by decide +kernel⟩

/-- A price that is not regular tells which selection of goods comes first, though that one is left
out. And under a schema that is not the one of the document, two selections of toys meet that are
not of the same toys, and the first one, though left out, says how many are paid. -/
theorem selectionTree_cost_prune_not :
    (stallSchema.WellFormed ∧ stallDocument.Consistent stallRegistry none
        ∧ ∃ tree pruned, stallRegistry.selectionTree stallDocument none = .ok tree
          ∧ stallRegistry.selectionTree (stallDocument.prune (keptUnder stallVars)) none
            = .ok pruned
          ∧ tree.cost stallVars (pricingRate "goods" byTheOrder stallVars) = 11
          ∧ pruned.cost stallVars (pricingRate "goods" byTheOrder stallVars) = 2)
      ∧ sharedSchema.WellFormed ∧ byThePiece.Regular ∧ toysDocument.Fits apartSchema
        ∧ toysDocument.Consistent (W := Unit) (O := Unit) (C := Unit) (T := Unit)
          { schema := apartSchema } none
        ∧ ∃ tree pruned : SelectionTree (Definition Unit Unit Unit Unit),
          Registry.selectionTree { schema := sharedSchema } toysDocument none = .ok tree
            ∧ Registry.selectionTree { schema := sharedSchema } (toysDocument.prune (keptUnder []))
              none = .ok pruned
            ∧ tree.cost [] (pricingRate "toys" byThePiece []) = 11
            ∧ pruned.cost [] (pricingRate "toys" byThePiece []) = 2 := by
  refine ⟨⟨stallSchema_wellFormed, stallDocument_consistent, _, _, rfl, rfl, ?_, ?_⟩,
    sharedSchema_wellFormed, byThePiece_regular, toysDocument_fits, toysDocument_consistent,
    _, _, rfl, rfl, ?_, ?_⟩ <;> decide +kernel

end

end QueryEngine
