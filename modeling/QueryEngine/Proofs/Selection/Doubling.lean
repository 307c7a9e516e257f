import QueryEngine.Proofs.Schema.Subtypes
import QueryEngine.Proofs.Selection.Rewriting

/-!
# Selections that are repeated

`Document.Doubles` relates a document to one in which some selection sets have a copy of their own
selections at the end. Whatever is found in the longer document repeats something that was found
before (`Echoes`), so it is merged into a node that is there already and adds nothing to it but an
occurrence: both documents have selection trees of one shape, or none for the same reason
(`selectionTree_doubles`), and no definition stands twice in a node (`nodup_definitions`).
-/

namespace QueryEngine

/-! ## Lists with repetitions -/

/-- The second list has the items of the first in order, up to `R`, and after them repetitions of
items that came before. -/
inductive Echoes {α : Type} (R : α → α → Prop) : List α → List α → Prop
  | nil : Echoes R [] []
  | snoc {xs ys : List α} {x y : α} (h : Echoes R xs ys) (hr : R x y) :
    Echoes R (xs ++ [x]) (ys ++ [y])
  | echo {xs ys : List α} {x y : α} (h : Echoes R xs ys) (hx : x ∈ xs) (hr : R x y) :
    Echoes R xs (ys ++ [y])

namespace Echoes

variable {α β : Type} {R : α → α → Prop} {xs ys us vs : List α}

/-- Every item of the echo stems from an item of the list. -/
theorem exists_of_mem (h : Echoes R xs ys) : ∀ y ∈ ys, ∃ x ∈ xs, R x y := by
  induction h with
  | nil => nofun
  | snoc _ hr ih =>
    intro z hz
    rcases List.mem_append.1 hz with hz | hz
    · obtain ⟨x, hx, hxz⟩ := ih z hz
      exact ⟨x, List.mem_append_left _ hx, hxz⟩
    · rw [List.mem_singleton.1 hz]
      exact ⟨_, List.mem_append_right _ (List.mem_singleton_self _), hr⟩
  | echo _ hx hr ih =>
    intro z hz
    rcases List.mem_append.1 hz with hz | hz
    · exact ih z hz
    · rw [List.mem_singleton.1 hz]
      exact ⟨_, hx, hr⟩

/-- Every item of the list is heard in the echo. -/
theorem exists_of_mem_left (h : Echoes R xs ys) : ∀ x ∈ xs, ∃ y ∈ ys, R x y := by
  induction h with
  | nil => nofun
  | snoc _ hr ih =>
    intro z hz
    rcases List.mem_append.1 hz with hz | hz
    · obtain ⟨y, hy, hzy⟩ := ih z hz
      exact ⟨y, List.mem_append_left _ hy, hzy⟩
    · rw [List.mem_singleton.1 hz]
      exact ⟨_, List.mem_append_right _ (List.mem_singleton_self _), hr⟩
  | echo _ _ _ ih =>
    intro z hz
    obtain ⟨y, hy, hzy⟩ := ih z hz
    exact ⟨y, List.mem_append_left _ hy, hzy⟩

/-- Echoes put one after the other are an echo of the lists put one after the other. -/
theorem append (h : Echoes R xs ys) (h' : Echoes R us vs) : Echoes R (xs ++ us) (ys ++ vs) := by
  induction h' with
  | nil => simpa using h
  | snoc _ hr ih =>
    rw [← List.append_assoc, ← List.append_assoc]
    exact .snoc ih hr
  | echo _ hx hr ih =>
    rw [← List.append_assoc]
    exact .echo ih (List.mem_append_right _ hx) hr

/-- Items that repeat earlier ones may follow. -/
theorem append_echoes (h : Echoes R xs ys) (hv : ∀ v ∈ vs, ∃ x ∈ xs, R x v) :
    Echoes R xs (ys ++ vs) := by
  induction vs using List.reverseRecOn with
  | nil => simpa using h
  | append_singleton vs v ih =>
    obtain ⟨x, hx, hr⟩ := hv v (by simp)
    rw [← List.append_assoc]
    exact .echo (ih fun u hu => hv u (List.mem_append_left _ hu)) hx hr

/-- Lists that are related item by item echo each other, with no repetitions. -/
theorem of_forall₂ (h : List.Forall₂ R xs ys) : Echoes R xs ys := by
  induction h with
  | nil => exact .nil
  | @cons x y xs ys hr _ ih =>
    have hone : Echoes R [x] [y] := .snoc .nil hr
    exact hone.append ih

/-- Replacing each item by a list, and by an echo of it, gives an echo. -/
theorem flatMap {S : β → β → Prop} {f g : α → List β} (h : Echoes R xs ys)
    (hf : ∀ x y, R x y → Echoes S (f x) (g y)) : Echoes S (xs.flatMap f) (ys.flatMap g) := by
  induction h with
  | nil => exact .nil
  | snoc _ hr ih =>
    rw [List.flatMap_append, List.flatMap_append, List.flatMap_singleton, List.flatMap_singleton]
    exact ih.append (hf _ _ hr)
  | echo _ hx hr ih =>
    rw [List.flatMap_append, List.flatMap_singleton]
    refine ih.append_echoes ?_
    intro v hv
    obtain ⟨u, hu, huv⟩ := (hf _ _ hr).exists_of_mem v hv
    exact ⟨u, List.mem_flatMap.2 ⟨_, hx, hu⟩, huv⟩

/-- An echo has an item of a kind exactly if the list has one. -/
theorem any {p q : α → Bool} (h : Echoes R xs ys) (hp : ∀ x y, R x y → p x = q y) :
    xs.any p = ys.any q := by
  rw [Bool.eq_iff_iff, List.any_eq_true, List.any_eq_true]
  constructor
  · rintro ⟨x, hx, hpx⟩
    obtain ⟨y, hy, hr⟩ := h.exists_of_mem_left x hx
    exact ⟨y, hy, hp x y hr ▸ hpx⟩
  · rintro ⟨y, hy, hqy⟩
    obtain ⟨x, hx, hr⟩ := h.exists_of_mem y hy
    exact ⟨x, hx, (hp x y hr).symm ▸ hqy⟩

/-- Echoes are a way to rearrange, so everything shown of rearranged documents holds of doubled
ones. -/
theorem rearranges : Rearranges @Echoes where
  nil _ := .nil
  singleton hr := .snoc .nil hr
  flatMap := flatMap
  any := any

/-- The first items are related. -/
theorem head? (h : Echoes R xs ys) :
    (xs = [] ∧ ys = []) ∨ ∃ x y, xs.head? = some x ∧ ys.head? = some y ∧ R x y := by
  induction h with
  | nil => exact .inl ⟨rfl, rfl⟩
  | @snoc xs ys x y _ hr ih =>
    rcases ih with ⟨rfl, rfl⟩ | ⟨a, b, ha, hb, hab⟩
    · exact .inr ⟨x, y, rfl, rfl, hr⟩
    · exact .inr ⟨a, b, by simp [ha], by simp [hb], hab⟩
  | echo _ hx _ ih =>
    rcases ih with ⟨rfl, -⟩ | ⟨a, b, ha, hb, hab⟩
    · cases hx
    · exact .inr ⟨a, b, ha, by simp [hb], hab⟩

/-- Repetitions do not change the order of first occurrences. -/
theorem eraseDups_eq {xs ys : List String} (h : Echoes Eq xs ys) : xs.eraseDups = ys.eraseDups := by
  have hmem : ∀ {xs ys : List String}, Echoes Eq xs ys → ∀ x, x ∈ xs ↔ x ∈ ys := by
    intro xs ys h x
    constructor
    · intro hx
      obtain ⟨y, hy, rfl⟩ := h.exists_of_mem_left x hx
      exact hy
    · intro hy
      obtain ⟨x, hx, rfl⟩ := h.exists_of_mem x hy
      exact hx
  induction h with
  | nil => rfl
  | snoc h hr ih =>
    rw [eraseDups_concat, eraseDups_concat, ih, hr]
    simp only [hmem h]
  | echo h hx hr ih =>
    rw [eraseDups_concat, ih, if_pos]
    exact hr ▸ (hmem h _).1 hx

end Echoes

/-! ## Documents with copies -/

mutual

/-- The second selection is the first one up to the numbers of selections, and some of the selection
sets in it have a copy of their own selections at the end. -/
inductive Selection.Doubles : Selection → Selection → Prop
  | field {field field' : Field} {selections selections' : List Selection}
    (hf : field.bare = field'.bare) (hs : SelectionsDouble selections selections') :
    Selection.Doubles (.field field selections) (.field field' selections')
  | inlineFragment {inline inline' : InlineFragment} {selections selections' : List Selection}
    (hc : inline.condition? = inline'.condition?) (hd : inline.directives = inline'.directives)
    (hs : SelectionsDouble selections selections') :
    Selection.Doubles (.inlineFragment inline selections) (.inlineFragment inline' selections')
  | fragmentSpread {spread spread' : FragmentSpread} (hf : spread.fragment = spread'.fragment)
    (hd : spread.directives = spread'.directives) :
    Selection.Doubles (.fragmentSpread spread) (.fragmentSpread spread')

/-- The second selection set is the first one, or it has a copy of its own selections at the end. -/
inductive SelectionsDouble : List Selection → List Selection → Prop
  | once {selections selections' : List Selection}
    (h : List.Forall₂ Selection.Doubles selections selections') :
    SelectionsDouble selections selections'
  | twice {selections selections' copy : List Selection}
    (h : List.Forall₂ Selection.Doubles selections selections')
    (hc : List.Forall₂ Selection.Doubles selections copy) :
    SelectionsDouble selections (selections' ++ copy)
end

/-- Some selection sets of the second document have a copy of their own selections at the end. -/
def Document.Doubles (document document' : Document) : Prop :=
  document.Like SelectionsDouble document'

/-- A doubled selection is the same selection with doubled sub-selections. -/
theorem Selection.Doubles.like {selection selection' : Selection}
    (h : selection.Doubles selection') : selection.Like SelectionsDouble selection' := by
  cases h with
  | field hf hs => exact .field hf hs
  | inlineFragment hc hd hs => exact .inlineFragment hc hd hs
  | fragmentSpread hf hd => exact .fragmentSpread hf hd

/-- A doubled selection set repeats selections whose sub-selections may be doubled. -/
theorem SelectionsDouble.echoes (selections selections' : List Selection)
    (h : SelectionsDouble selections selections') :
    Echoes (Selection.Like SelectionsDouble) selections selections' := by
  cases h with
  | once h => exact .of_forall₂ (h.imp fun _ _ hd => hd.like)
  | twice h hc =>
    have hcopy := Echoes.of_forall₂ (hc.imp fun _ _ hd => hd.like)
    exact (Echoes.of_forall₂ (h.imp fun _ _ hd => hd.like)).append_echoes hcopy.exists_of_mem

/-! ## Shapes -/

/-- Lists with the same keys in the same order have the same images if items with one key have. -/
theorem map_eq_of_key_eq {α β γ δ : Type} {key : α → β} {key' : γ → β} {f : α → δ} {g : γ → δ}
    {xs : List α} {ys : List γ} (hk : xs.map key = ys.map key')
    (h : ∀ x ∈ xs, ∀ y ∈ ys, key x = key' y → f x = g y) : xs.map f = ys.map g := by
  induction xs generalizing ys with
  | nil =>
    obtain rfl : ys = [] := by simpa using hk.symm
    rfl
  | cons x rest ih =>
    cases ys with
    | nil => cases hk
    | cons y others =>
      obtain ⟨hkey, hrest⟩ := List.cons.inj hk
      rw [List.map_cons, List.map_cons, h x (by simp) y (by simp) hkey]
      refine congrArg _ (ih hrest ?_)
      intro z hz w hw
      exact h z (List.mem_cons_of_mem _ hz) w (List.mem_cons_of_mem _ hw)

variable {D : Type}

/-- Buckets for the same distinct types have the same shapes if for each type they have nodes with
the same keys whose shapes are the same. -/
theorem Bucket.map_shape_congr {buckets buckets' : List (Bucket D)}
    (ht : buckets.map Bucket.type = buckets'.map Bucket.type)
    (hn : (buckets.map Bucket.type).Nodup)
    (hk : ∀ type, (nodesOf type buckets).map Node.key = (nodesOf type buckets').map Node.key)
    (hs : ∀ type, ∀ node ∈ nodesOf type buckets, ∀ node' ∈ nodesOf type buckets',
      node.key = node'.key → node.shape = node'.shape) :
    buckets.map Bucket.shape = buckets'.map Bucket.shape := by
  refine map_eq_of_key_eq ht ?_
  intro bucket hb bucket' hb' htype
  have hnodes := nodesOf_of_mem hn hb
  have hnodes' := nodesOf_of_mem (ht ▸ hn) hb'
  rw [← htype] at hnodes'
  rw [Bucket.shape_eq, Bucket.shape_eq, htype, ← hnodes, ← hnodes', htype]
  rw [htype] at hnodes hnodes'
  exact congrArg _ (map_eq_of_key_eq (htype ▸ hk bucket.type) (htype ▸ hs bucket.type))

section
variable {context : MergeContext D} {other : String → Option Fragment}
  {found found' : List Pick}

/-- Repeated field selections add no definition. -/
theorem MergeContext.definitionsOf_echoes
    (hsame : ∀ definition, context.sameDefinition definition definition) (concrete : String)
    {R : List Selection → List Selection → Prop} (h : Echoes (Pick.Like R) found found') :
    context.definitionsOf concrete found = context.definitionsOf concrete found' := by
  induction h with
  | nil => rfl
  | snoc _ hr ih =>
    obtain ⟨-, hname, -⟩ := Field.bare_eq_iff.1 hr.field
    rw [definitionsOf_concat, definitionsOf_concat, ih, hname]
  | @echo found found' pick pick' _ hp hr ih =>
    obtain ⟨-, hname, -⟩ := Field.bare_eq_iff.1 hr.field
    rw [definitionsOf_concat, ih, ← hname]
    cases hd : context.definition? concrete pick.field.name with
    | none => rfl
    | some definition =>
      have hknown := any_definitionsOf hsame hp hd
      rw [ih] at hknown
      exact (if_pos hknown).symm

/-- Repeated field selections add no type. -/
theorem MergeContext.typesBelow_echoes
    (h : Echoes (Pick.Like SelectionsDouble) found found') :
    context.typesBelow found = context.typesBelow found' := by
  refine Echoes.eraseDups_eq (h.flatMap fun pick pick' hlike => ?_)
  obtain ⟨-, -, -, -, -, htype⟩ := Field.bare_eq_iff.1 hlike.field
  rw [isEmpty_like Echoes.rearranges SelectionsDouble.echoes hlike.selections, htype]
  exact Echoes.of_forall₂ (List.forall₂_refl _)

/-- What repeated field selections are merged into looks the same. -/
theorem Represents.shape_eq
    (hsame : ∀ definition, context.sameDefinition definition definition)
    (hF : FragmentsLike SelectionsDouble context.fragment? other) {depth : Nat}
    {concrete : String} {node node' : Node D}
    (hr : Represents context depth concrete found node)
    (hr' : Represents { context with fragment? := other } depth concrete found' node')
    (h : Echoes (Pick.Like SelectionsDouble) found found') (hne : found ≠ []) :
    node.shape = node'.shape := by
  induction hr generalizing found' node' with
  | @intro concrete found node own types keys children ih =>
    obtain ⟨own', types', hlists'⟩ := represents_iff.1 hr'
    obtain ⟨rfl, -⟩ | ⟨first, first', hfirst, hfirst', hlike⟩ := h.head?
    · exact absurd rfl hne
    obtain ⟨hkey, hname, howner, htype, hcomposite⟩ := own.data first hfirst
    obtain ⟨hkey', hname', howner', htype', hcomposite'⟩ := own'.data first' hfirst'
    obtain ⟨-, hn, harguments, -, ho, ht⟩ := Field.bare_eq_iff.1 hlike.field
    have hnames : node.name = node'.name := by rw [hname, hname', hn]
    have htypename : node.isTypename = node'.isTypename := by
      rw [Node.isTypename, Node.isTypename, hnames]
    have hcomposites : node.isComposite = node'.isComposite := by
      rw [hcomposite, hcomposite',
        isEmpty_like Echoes.rearranges SelectionsDouble.echoes hlike.selections]
    have hargs : node.arguments = node'.arguments := by
      obtain ⟨rest, rfl⟩ := List.head?_eq_some_iff.1 hfirst
      obtain ⟨rest', rfl⟩ := List.head?_eq_some_iff.1 hfirst'
      rw [Node.arguments, Node.arguments, own.occurrences, own'.occurrences]
      exact harguments
    have hdefinitions : node.definitions = node'.definitions := by
      rw [own.definitions, own'.definitions, htypename,
        MergeContext.definitionsOf_echoes hsame concrete h]
      rfl
    have hincluded : node.isIncluded = node'.isIncluded := by
      funext vars
      have hbare : ∀ pick pick' : Pick, pick.Like SelectionsDouble pick' →
          pick.occurrence.isIncluded vars = pick'.occurrence.isIncluded vars := by
        intro pick pick' hl
        rw [← Occurrence.isIncluded_bare, ← Occurrence.isIncluded_bare pick'.occurrence,
          hl.occurrence_bare]
      rw [Node.isIncluded, Node.isIncluded, own.occurrences, own'.occurrences, List.isEmpty_map,
        List.isEmpty_map, Echoes.rearranges.isEmpty_eq h, List.any_map, List.any_map]
      exact congrArg _ (h.any hbare)
    have hbelow := below_like Echoes.rearranges SelectionsDouble.echoes hF depth h
    have hbuckets : node.buckets.map Bucket.shape = node'.buckets.map Bucket.shape := by
      refine Bucket.map_shape_congr ?_ ?_ ?_ ?_
      · rw [types, types', MergeContext.typesBelow_echoes h]
        rfl
      · rw [types]
        exact nodup_eraseDups _
      · intro inner
        rw [keys inner, (hlists' inner).keys]
        refine Echoes.eraseDups_eq ?_
        exact Echoes.rearranges.map (hbelow inner) fun _ _ hl => hl.key_eq
      · intro inner child hc child' hc' hsameKey
        refine ih inner child hc ((hlists' inner).children child' hc') ?_
          (Lists.filter_ne_nil ⟨keys inner, children inner⟩ hc)
        rw [← hsameKey]
        refine Echoes.rearranges.filter (hbelow inner) fun _ _ hl => ?_
        rw [hl.key_eq]
    rw [Node.shape_eq, Node.shape_eq, hnames, hargs, hdefinitions, hincluded, hbuckets, hkey,
      hkey', howner, howner', htype, htype', hcomposites, hlike.key_eq, ho, ht]

/-- Operations whose selection sets are doubled have trees of one shape, or none for the same
reason. -/
theorem SelectionTree.ofOperation_doubles (context : MergeContext D)
    {other : String → Option Fragment}
    (hsame : ∀ definition, context.sameDefinition definition definition)
    (hnd : ∀ type, (context.schema.possibleTypes type).Nodup)
    (hF : FragmentsLike SelectionsDouble context.fragment? other) {operation operation' : Operation}
    (h : operation.Like SelectionsDouble operation') (limit : Nat) (rootType : String) :
    Correspond (fun tree tree' => tree.shape = tree'.shape)
      (ofOperation context limit operation rootType)
      (ofOperation { context with fragment? := other } limit operation' rootType) := by
  refine (ofOperation_like Echoes.rearranges SelectionsDouble.echoes hF hnd h limit rootType).imp ?_
  rintro tree tree' ⟨hkind, hkind', hroot, hroot', htypes, htypes', hpicks, hlists, hlists'⟩
  have hbuckets : tree.root.buckets.map Bucket.shape = tree'.root.buckets.map Bucket.shape := by
    refine Bucket.map_shape_congr (htypes.trans htypes'.symm) ?_ ?_ ?_
    · rw [htypes]
      exact List.nodup_singleton rootType
    · intro type
      rw [(hlists type).keys, (hlists' type).keys]
      refine Echoes.eraseDups_eq ?_
      exact Echoes.rearranges.map (hpicks type) fun _ _ hl => hl.key_eq
    · intro type child hc child' hc' hkey
      refine ((hlists type).children child hc).shape_eq hsame hF
        ((hlists' type).children child' hc') ?_ ((hlists type).filter_ne_nil hc)
      rw [← hkey]
      refine Echoes.rearranges.filter (hpicks type) fun _ _ hl => ?_
      rw [hl.key_eq]
  rw [shape, shape, hkind, hkind', h.kind, hroot, hroot', Node.shape_eq, Node.shape_eq]
  simp only [hbuckets]
  rfl

end

section
variable {W O C T : Type} {registry : Registry W O C T} {document document' : Document}

/-- Merging is idempotent: a document some of whose selection sets have a copy of their own
selections at the end has trees of the same shape, or none for the same reason. -/
theorem Registry.selectionTree_doubles (hs : registry.schema.WellFormed)
    (h : document.Doubles document') (name : Option String) :
    (registry.selectionTree document name).map SelectionTree.shape
      = (registry.selectionTree document' name).map SelectionTree.shape := by
  refine correspond_iff_map_eq.1 (registry.selectionTree_correspond (fun _ _ hl => hl.name)
    (fun _ _ hl => hl.kind) ?_ h.operations)
  intro operation operation' rootType _ _ hlike
  refine SelectionTree.ofOperation_doubles (registry.mergeContext document) (fun definition => ?_)
    hs.nodup_possibleTypes h.fragmentsLike hlike _ rootType
  exact beq_self_eq_true definition.id

/-- The definitions in a selection tree are those of field selections on concrete types. -/
theorem Registry.exists_definitionsOf (hs : registry.schema.WellFormed) {name : Option String}
    {tree : SelectionTree (Definition W O C T)}
    (h : registry.selectionTree document name = .ok tree) {node : Node (Definition W O C T)}
    (hw : Node.Within tree.root node) :
    ∃ concrete found,
      node.definitions = (registry.mergeContext document).definitionsOf concrete found := by
  unfold selectionTree at h
  cases ho : document.operation? name with
  | none =>
    rw [ho] at h
    cases h
  | some operation =>
    cases hr : registry.schema.root? operation.kind with
    | none =>
      simp only [ho, hr] at h
      cases h
    | some rootType =>
      simp only [ho, hr] at h
      obtain ⟨buckets, rfl, htypes, hlists⟩ :=
        SelectionTree.exists_buckets hs.nodup_possibleTypes (Nat.lt_succ_self _) h
      have hnodup : (buckets.map Bucket.type).Nodup := htypes ▸ List.nodup_singleton rootType
      rcases exists_represents hnodup hlists hw with rfl | ⟨concrete, found, hrep⟩
      · exact ⟨rootType, [], rfl⟩
      · obtain ⟨hown, -⟩ := represents_iff.1 hrep
        rw [hown.definitions]
        split
        · exact ⟨concrete, [], rfl⟩
        · exact ⟨concrete, found, rfl⟩

/-- No definition stands twice in a node of a selection tree. -/
theorem Registry.nodup_definitions (hs : registry.schema.WellFormed) {name : Option String}
    {tree : SelectionTree (Definition W O C T)}
    (h : registry.selectionTree document name = .ok tree) {node : Node (Definition W O C T)}
    (hw : Node.Within tree.root node) : (node.definitions.map Definition.id).Nodup := by
  obtain ⟨concrete, found, hdefinitions⟩ := registry.exists_definitionsOf hs h hw
  rw [hdefinitions]
  have hpairs := (registry.mergeContext document).pairwise_definitionsOf concrete found
  refine List.pairwise_map.2 (hpairs.imp fun {a b} hne => ?_)
  have hne : (a.id == b.id) = false := hne
  exact beq_eq_false_iff_ne.1 hne

/-- The definitions in a selection tree are those that the registry has for fields. -/
theorem Registry.exists_definition? (hs : registry.schema.WellFormed) {name : Option String}
    {tree : SelectionTree (Definition W O C T)}
    (h : registry.selectionTree document name = .ok tree) {node : Node (Definition W O C T)}
    (hw : Node.Within tree.root node) {definition : Definition W O C T}
    (hd : definition ∈ node.definitions) :
    ∃ type field, registry.definition? type field = some definition := by
  obtain ⟨concrete, found, hdefinitions⟩ := registry.exists_definitionsOf hs h hw
  rw [hdefinitions] at hd
  exact ⟨concrete, MergeContext.exists_of_mem_definitionsOf hd⟩

end

end QueryEngine
