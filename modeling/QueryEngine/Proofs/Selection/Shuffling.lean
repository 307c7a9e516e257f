import Mathlib.Data.List.Perm.Basic
import QueryEngine.Proofs.Schema.Subtypes
import QueryEngine.Proofs.Selection.Rewriting

/-!
# Selections in another order

`Document.Shuffles` relates a document to one in which selection sets have their selections in
another order. What is found in one document is found in the other, in another order
(`Shuffles.rearranges`), so both have nodes for the same keys. A node keeps of its first field
selection the name, the arguments, the type and whether it has a sub-selection: if those that are
merged agree on that (`MergeContext.CanMerge`), as they do in a valid document, then the nodes of
both documents differ in the order of their children only, and in which of the named types of the
merged fields they have (`Node.Shuffles`, `selectionTree_shuffles`).
-/

namespace QueryEngine

/-! ## Lists in another order -/

/-- The second list has the items of the first one, up to `R`, in some order. -/
def Shuffles {α : Type} (R : α → α → Prop) (xs ys : List α) : Prop :=
  ∃ middle, List.Forall₂ R xs middle ∧ middle.Perm ys

namespace Shuffles

variable {α β : Type} {R : α → α → Prop} {xs ys us vs : List α}

/-- Shuffled lists put one after the other are a shuffle of the lists put one after the other. -/
theorem append (h : Shuffles R xs ys) (h' : Shuffles R us vs) :
    Shuffles R (xs ++ us) (ys ++ vs) := by
  obtain ⟨middle, hm, hp⟩ := h
  obtain ⟨middle', hm', hp'⟩ := h'
  exact ⟨middle ++ middle', List.rel_append hm hm', hp.append hp'⟩

/-- Replacing each item by a list, and by a shuffle of it, gives a shuffle. -/
theorem flatMap {S : β → β → Prop} {f g : α → List β} (h : Shuffles R xs ys)
    (hf : ∀ x y, R x y → Shuffles S (f x) (g y)) : Shuffles S (xs.flatMap f) (ys.flatMap g) := by
  obtain ⟨middle, hm, hp⟩ := h
  have hflat : Shuffles S (xs.flatMap f) (middle.flatMap g) := by
    clear hp
    induction hm with
    | nil => exact ⟨[], .nil, .refl _⟩
    | cons hr _ ih =>
      rw [List.flatMap_cons, List.flatMap_cons]
      exact (hf _ _ hr).append ih
  obtain ⟨last, hl, hp'⟩ := hflat
  exact ⟨last, hl, hp'.trans (hp.flatMap_right g)⟩

/-- A shuffled list has an item of a kind exactly if the list has one. -/
theorem any {p q : α → Bool} (h : Shuffles R xs ys) (hp : ∀ x y, R x y → p x = q y) :
    xs.any p = ys.any q := by
  obtain ⟨middle, hm, hperm⟩ := h
  rw [← hperm.any_eq]
  clear hperm
  induction hm with
  | nil => rfl
  | cons hr _ ih => rw [List.any_cons, List.any_cons, hp _ _ hr, ih]

/-- Shuffles are a way to rearrange, so everything shown of rearranged documents holds of shuffled
ones. -/
theorem rearranges : Rearranges @Shuffles where
  nil _ := ⟨[], .nil, .refl _⟩
  singleton hr := ⟨_, .cons hr .nil, .refl _⟩
  flatMap := flatMap
  any := any

/-- Every item of the shuffled list stems from an item of the list. -/
theorem exists_of_mem (h : Shuffles R xs ys) : ∀ y ∈ ys, ∃ x ∈ xs, R x y := by
  obtain ⟨middle, hm, hp⟩ := h
  intro y hy
  have hy := hp.mem_iff.2 hy
  clear hp
  induction hm with
  | nil => cases hy
  | cons hr _ ih =>
    rcases List.mem_cons.1 hy with rfl | hy
    · exact ⟨_, List.mem_cons_self .., hr⟩
    · obtain ⟨x, hx, hxy⟩ := ih hy
      exact ⟨x, List.mem_cons_of_mem _ hx, hxy⟩

/-- Items that correspond to each other are in the lists. -/
theorem and_mem (h : Shuffles R xs ys) : Shuffles (fun x y => R x y ∧ x ∈ xs) xs ys := by
  obtain ⟨middle, hm, hp⟩ := h
  refine ⟨middle, ?_, hp⟩
  clear hp
  induction hm with
  | nil => exact .nil
  | cons hr _ ih =>
    exact .cons ⟨hr, List.mem_cons_self ..⟩
      (ih.imp fun _ _ h => ⟨h.1, List.mem_cons_of_mem _ h.2⟩)

/-- A shuffle that leaves the items as they are is a permutation. -/
theorem perm (h : Shuffles Eq xs ys) : xs.Perm ys := by
  obtain ⟨middle, hm, hp⟩ := h
  rw [List.forall₂_eq_eq_eq] at hm
  exact hm ▸ hp

/-- In another order the same keys occur. -/
theorem perm_eraseDups {xs ys : List String} (h : Shuffles Eq xs ys) :
    xs.eraseDups.Perm ys.eraseDups := by
  refine (List.perm_ext_iff_of_nodup (nodup_eraseDups xs) (nodup_eraseDups ys)).2 fun key => ?_
  rw [List.mem_eraseDups, List.mem_eraseDups, h.perm.mem_iff]

/-- Items with the same distinct keys are the same in some order if those with one key are. -/
theorem of_keys {κ : Type} {key : α → κ} (hn : (xs.map key).Nodup)
    (hk : (xs.map key).Perm (ys.map key))
    (h : ∀ x ∈ xs, ∀ y ∈ ys, key x = key y → R x y) : Shuffles R xs ys := by
  induction xs generalizing ys with
  | nil =>
    obtain rfl : ys = [] := by simpa using hk
    exact ⟨[], .nil, .refl _⟩
  | cons x rest ih =>
    have hmem : key x ∈ ys.map key := hk.mem_iff.1 (List.mem_cons_self ..)
    obtain ⟨y, hy, hkey⟩ := List.mem_map.1 hmem
    obtain ⟨before, after, rfl⟩ := List.append_of_mem hy
    have hmiddle : (before ++ y :: after).Perm (y :: (before ++ after)) := List.perm_middle
    have hrest : (rest.map key).Perm ((before ++ after).map key) := by
      have hcons := hk.trans (hmiddle.map key)
      rw [List.map_cons, List.map_cons, hkey] at hcons
      exact hcons.cons_inv
    obtain ⟨middle, hm, hp⟩ := ih (List.nodup_cons.1 hn).2 hrest fun z hz w hw =>
      h z (List.mem_cons_of_mem _ hz) w (hmiddle.mem_iff.2 (List.mem_cons_of_mem _ hw))
    exact ⟨y :: middle, .cons (h x (List.mem_cons_self ..) y hy hkey.symm) hm,
      (hp.cons y).trans hmiddle.symm⟩

end Shuffles

/-! ## Documents in another order -/

mutual

/-- The second selection is the first one up to the numbers of selections and the order of the
selections in the sets below it. -/
inductive Selection.Shuffles : Selection → Selection → Prop
  | field {field field' : Field} {selections selections' : List Selection}
    (hf : field.bare = field'.bare) (hs : SelectionsShuffle selections selections') :
    Selection.Shuffles (.field field selections) (.field field' selections')
  | inlineFragment {inline inline' : InlineFragment} {selections selections' : List Selection}
    (hc : inline.condition? = inline'.condition?) (hd : inline.directives = inline'.directives)
    (hs : SelectionsShuffle selections selections') :
    Selection.Shuffles (.inlineFragment inline selections) (.inlineFragment inline' selections')
  | fragmentSpread {spread spread' : FragmentSpread} (hf : spread.fragment = spread'.fragment)
    (hd : spread.directives = spread'.directives) :
    Selection.Shuffles (.fragmentSpread spread) (.fragmentSpread spread')

/-- The second selection set has the selections of the first one in some order. -/
inductive SelectionsShuffle : List Selection → List Selection → Prop
  | intro {selections middle selections' : List Selection}
    (h : List.Forall₂ Selection.Shuffles selections middle) (hp : middle.Perm selections') :
    SelectionsShuffle selections selections'
end

/-- The selection sets of the second document have their selections in another order. -/
def Document.Shuffles (document document' : Document) : Prop :=
  document.Like SelectionsShuffle document'

mutual

/-- A selection is itself, in the same order. -/
theorem Selection.Shuffles.refl : ∀ selection : Selection, selection.Shuffles selection
  | .field _ selections => .field rfl (.intro (forall₂_shuffles selections) (.refl _))
  | .inlineFragment _ selections =>
    .inlineFragment rfl rfl (.intro (forall₂_shuffles selections) (.refl _))
  | .fragmentSpread _ => .fragmentSpread rfl rfl

/-- A selection set is a shuffle of itself, selection by selection. -/
theorem forall₂_shuffles : ∀ selections : List Selection,
    List.Forall₂ Selection.Shuffles selections selections
  | [] => .nil
  | selection :: rest => .cons (.refl selection) (forall₂_shuffles rest)
end

/-- A shuffled selection is the same selection with shuffled sub-selections. -/
theorem Selection.Shuffles.like {selection selection' : Selection}
    (h : selection.Shuffles selection') : selection.Like SelectionsShuffle selection' := by
  cases h with
  | field hf hs => exact .field hf hs
  | inlineFragment hc hd hs => exact .inlineFragment hc hd hs
  | fragmentSpread hf hd => exact .fragmentSpread hf hd

/-- A shuffled selection set is a shuffle of selections that are alike. -/
theorem SelectionsShuffle.shuffles (selections selections' : List Selection)
    (h : SelectionsShuffle selections selections') :
    Shuffles (Selection.Like SelectionsShuffle) selections selections' := by
  obtain ⟨h, hp⟩ := h
  exact ⟨_, h.imp fun _ _ hs => hs.like, hp⟩

/-! ## Field selections that may be merged -/

/-- The types have the same lists and the same nulls. -/
inductive TypeRef.SameShape : TypeRef → TypeRef → Prop
  | named (name name' : String) : SameShape (.named name) (.named name')
  | nonNullNamed (name name' : String) : SameShape (.nonNullNamed name) (.nonNullNamed name')
  | list {item item' : TypeRef} (h : item.SameShape item') : SameShape (.list item) (.list item')
  | nonNullList {item item' : TypeRef} (h : item.SameShape item') :
    SameShape (.nonNullList item) (.nonNullList item')

namespace TypeRef.SameShape

/-- A type has the shape that it has. -/
theorem refl (type : TypeRef) : type.SameShape type := by
  induction type with
  | named name => exact .named name name
  | nonNullNamed name => exact .nonNullNamed name name
  | list item ih => exact .list ih
  | nonNullList item ih => exact .nonNullList ih

variable {type type' : TypeRef}

/-- Types of one shape both allow null or both do not. -/
theorem isNonNull_eq (h : type.SameShape type') : type.isNonNull = type'.isNonNull := by
  cases h <;> rfl

/-- Types of one shape are both lists or both not. -/
theorem isNone_item? (h : type.SameShape type') : type.item?.isNone = type'.item?.isNone := by
  cases h <;> rfl

end TypeRef.SameShape

/-- The field selections may be merged into one node: they select one field with the same
arguments, their types have one shape, and both have a sub-selection or none. -/
structure Pick.Merges (pick other : Pick) : Prop where
  name : pick.field.name = other.field.name
  arguments : pick.field.arguments = other.field.arguments
  type : pick.field.type.SameShape other.field.type
  selections : pick.selections.isEmpty = other.selections.isEmpty

variable {D : Type}

namespace MergeContext

/-- The second list is the first one, or it is found for a type below the field selections with one
key in a list that is. -/
inductive Within (context : MergeContext D) (depth : Nat) : List Pick → List Pick → Prop
  | self (found : List Pick) : Within context depth found found
  | deeper {found inner : List Pick} (key type : String)
    (h : Within context depth (context.below depth (found.filter (·.key == key)) type) inner) :
    Within context depth found inner

/-- In the list and in all lists below it the field selections with one key are related. -/
def KeysAgree (context : MergeContext D) (depth : Nat) (R : Pick → Pick → Prop)
    (found : List Pick) : Prop :=
  ∀ inner, context.Within depth found inner → ∀ pick ∈ inner, ∀ other ∈ inner,
    pick.key = other.key → R pick other

/-- In the list and in all lists below it the field selections with one key may be merged. -/
def CanMerge (context : MergeContext D) (depth : Nat) (found : List Pick) : Prop :=
  ∀ inner, context.Within depth found inner → ∀ pick ∈ inner, ∀ other ∈ inner,
    pick.key = other.key → pick.Merges other

section
variable {context : MergeContext D} {depth : Nat} {R : Pick → Pick → Prop} {found : List Pick}

/-- Where keys agree in a list, they agree in what is below the selections of one key. -/
theorem KeysAgree.below (h : context.KeysAgree depth R found) (key type : String) :
    context.KeysAgree depth R (context.below depth (found.filter (·.key == key)) type) :=
  fun inner hw => h inner (.deeper key type hw)

/-- Two selections of one key in the list are related. -/
theorem KeysAgree.filter (h : context.KeysAgree depth R found) {key : String} {pick other : Pick}
    (hp : pick ∈ found.filter (·.key == key)) (ho : other ∈ found.filter (·.key == key)) :
    R pick other := by
  obtain ⟨hp, hkey⟩ := List.mem_filter.1 hp
  obtain ⟨ho, hkey'⟩ := List.mem_filter.1 ho
  exact h found (.self found) pick hp other ho ((eq_of_beq hkey).trans (eq_of_beq hkey').symm)

/-- Where selections can be merged in a list, they can be below the selections of one key. -/
theorem CanMerge.below (h : context.CanMerge depth found) (key type : String) :
    context.CanMerge depth (context.below depth (found.filter (·.key == key)) type) :=
  KeysAgree.below h key type

/-- Two selections of one key in the list may be merged. -/
theorem CanMerge.filter (h : context.CanMerge depth found) {key : String} {pick other : Pick}
    (hp : pick ∈ found.filter (·.key == key)) (ho : other ∈ found.filter (·.key == key)) :
    pick.Merges other :=
  KeysAgree.filter h hp ho

end

/-- Whether the test holds of field selections with one key, in the list and in the lists below it,
which end within a number of levels. -/
def checks (context : MergeContext D) (depth : Nat) (test : Pick → Pick → Bool) :
    Nat → List Pick → Bool
  | 0, found => found.isEmpty
  | levels + 1, found =>
    found.all fun pick =>
      let same := found.filter (·.key == pick.key)
      same.all (test pick) && (context.typesBelow same).all fun type =>
        checks context depth test levels (context.below depth same type)

/-- Below field selections nothing is found for a type that none of them can have. -/
theorem below_eq_nil {context : MergeContext D} {depth : Nat} {found : List Pick} {type : String}
    (h : type ∉ context.typesBelow found) : context.below depth found type = [] := by
  refine List.flatMap_eq_nil_iff.2 fun pick hp => ?_
  split
  · next ht =>
    cases hs : pick.selections with
    | nil => cases depth <;> rfl
    | cons first rest =>
      refine absurd ?_ h
      rw [typesBelow, List.mem_eraseDups]
      refine List.mem_flatMap.2 ⟨pick, hp, ?_⟩
      rw [hs]
      exact ht
  · rfl

/-- Below no field selections there are none. -/
theorem Within.eq_nil {context : MergeContext D} {depth : Nat} {found inner : List Pick}
    (h : context.Within depth found inner) (hf : found = []) : inner = [] := by
  induction h with
  | self => exact hf
  | deeper key type _ ih =>
    subst hf
    exact ih rfl

/-- Field selections with one key are related if they pass a test that says so. -/
theorem keysAgree_of_checks {context : MergeContext D} {depth : Nat} {R : Pick → Pick → Prop}
    {test : Pick → Pick → Bool} (ht : ∀ pick other, test pick other = true → R pick other)
    (levels : Nat) {found : List Pick} (h : context.checks depth test levels found = true) :
    context.KeysAgree depth R found := by
  intro inner hw
  induction levels generalizing found with
  | zero =>
    rw [hw.eq_nil (List.isEmpty_iff.1 h)]
    exact nofun
  | succ levels ih =>
    have hall := fun pick hp => Bool.and_eq_true_iff.1 (List.all_eq_true.1 h pick hp)
    cases hw with
    | self =>
      intro pick hp other ho hkey
      refine ht pick other (List.all_eq_true.1 (hall pick hp).1 other ?_)
      exact List.mem_filter.2 ⟨ho, by simp [hkey]⟩
    | deeper key type hw =>
      by_cases hbelow : type ∈ context.typesBelow (found.filter (·.key == key))
      · -- A key that is not there has no types below it.
        obtain ⟨pick, hp, hkey⟩ : ∃ pick ∈ found, pick.key = key := by
          rw [typesBelow, List.mem_eraseDups] at hbelow
          obtain ⟨pick, hp, -⟩ := List.mem_flatMap.1 hbelow
          obtain ⟨hp, hkey⟩ := List.mem_filter.1 hp
          exact ⟨pick, hp, eq_of_beq hkey⟩
        subst hkey
        exact ih (List.all_eq_true.1 (hall pick hp).2 type hbelow) hw
      · rw [hw.eq_nil (below_eq_nil hbelow)]
        exact nofun

/-- Field selections may be merged if those with one key pass a test that says so. -/
theorem canMerge_of_checks {context : MergeContext D} {depth : Nat} {test : Pick → Pick → Bool}
    (ht : ∀ pick other, test pick other = true → pick.Merges other) (levels : Nat)
    {found : List Pick} (h : context.checks depth test levels found = true) :
    context.CanMerge depth found :=
  keysAgree_of_checks ht levels h

/-- Field selections of one field have one definition. -/
theorem definitionsOf_eq (context : MergeContext D)
    (hsame : ∀ definition, context.sameDefinition definition definition) (concrete : String)
    {name : String} {found : List Pick} (hne : found ≠ [])
    (hn : ∀ pick ∈ found, pick.field.name = name) :
    context.definitionsOf concrete found = (context.definition? concrete name).toList := by
  induction found using List.reverseRecOn with
  | nil => exact absurd rfl hne
  | append_singleton found last ih =>
    have hlast : last.field.name = name := hn last (by simp)
    rw [definitionsOf_concat, hlast]
    by_cases hfound : found = []
    · subst hfound
      cases context.definition? concrete name <;> rfl
    · have ih := ih hfound fun pick hp => hn pick (List.mem_append_left _ hp)
      cases hd : context.definition? concrete name with
      | none =>
        rw [hd] at ih
        exact ih
      | some definition =>
        rw [hd] at ih
        rw [ih, Option.elim_some, addDefinition, if_pos]
        simp [hsame definition]

end MergeContext

/-! ## Nodes in another order -/

/-- All field selections that are merged into the node have one named type. -/
def Node.Uniform (node : Node D) : Prop :=
  ∀ occurrence ∈ node.occurrences, occurrence.field.type.inner = node.type.inner

/-- The nodes are of one field with the same arguments, included in the same cases. The second one
perhaps has the named type of another of the field selections. -/
structure Node.SameField (node other : Node D) : Prop where
  key : node.key = other.key
  name : node.name = other.name
  isComposite : node.isComposite = other.isComposite
  arguments : node.arguments = other.arguments
  definitions : node.definitions = other.definitions
  isIncluded : node.isIncluded = other.isIncluded
  shape : node.type.SameShape other.type
  inner : node.Uniform → node.type.inner = other.type.inner

/-- The second node is the first one with its children in another order, and so are they. -/
inductive Node.Shuffles : Node D → Node D → Prop
  | intro {node other : Node D} (own : node.SameField other)
    (types : (node.buckets.map Bucket.type).Perm (other.buckets.map Bucket.type))
    (distinct : ∀ type, ((Bucket.nodesOf type node.buckets).map Node.key).Nodup)
    (keys : ∀ type, ((Bucket.nodesOf type node.buckets).map Node.key).Perm
      ((Bucket.nodesOf type other.buckets).map Node.key))
    (children : ∀ type, ∀ child ∈ Bucket.nodesOf type node.buckets,
      ∀ child' ∈ Bucket.nodesOf type other.buckets, child.key = child'.key →
        Shuffles child child') :
    Shuffles node other

section
variable {node other : Node D}

/-- Both nodes ask for the name of the type or neither does. -/
theorem Node.SameField.isTypename_eq (h : node.SameField other) :
    node.isTypename = other.isTypename := by
  rw [isTypename, isTypename, h.name]

/-- Both nodes find the same definition. -/
theorem Node.SameField.definition?_eq (h : node.SameField other) :
    node.definition? = other.definition? := by
  rw [definition?, definition?, h.definitions]

/-- A shuffled node is of the same field. -/
theorem Node.Shuffles.own (h : node.Shuffles other) : node.SameField other := by
  cases h with
  | intro own => exact own

/-- A shuffled node has buckets for the same types. -/
theorem Node.Shuffles.types (h : node.Shuffles other) :
    (node.buckets.map Bucket.type).Perm (other.buckets.map Bucket.type) := by
  cases h with
  | intro _ types => exact types

/-- The nodes for objects of a type have distinct keys. -/
theorem Node.Shuffles.distinct (h : node.Shuffles other) (type : String) :
    ((Bucket.nodesOf type node.buckets).map Node.key).Nodup := by
  cases h with
  | intro _ _ distinct => exact distinct type

/-- The nodes for objects of a type are the same in another order. -/
theorem Node.Shuffles.nodesOf (h : node.Shuffles other) (type : String) :
    QueryEngine.Shuffles Node.Shuffles (Bucket.nodesOf type node.buckets)
      (Bucket.nodesOf type other.buckets) := by
  cases h with
  | intro _ _ distinct keys children =>
    exact Shuffles.of_keys (distinct type) (keys type) (children type)

end

/-- A node with other buckets is the node in another order if its children are. -/
theorem Node.Shuffles.of_buckets (node : Node D) {buckets buckets' : List (Bucket D)}
    (types : (buckets.map Bucket.type).Perm (buckets'.map Bucket.type))
    (distinct : ∀ type, ((Bucket.nodesOf type buckets).map Node.key).Nodup)
    (keys : ∀ type, ((Bucket.nodesOf type buckets).map Node.key).Perm
      ((Bucket.nodesOf type buckets').map Node.key))
    (children : ∀ type, ∀ child ∈ Bucket.nodesOf type buckets,
      ∀ child' ∈ Bucket.nodesOf type buckets', child.key = child'.key → child.Shuffles child') :
    Node.Shuffles { node with buckets } { node with buckets := buckets' } :=
  .intro ⟨rfl, rfl, rfl, rfl, rfl, rfl, TypeRef.SameShape.refl node.type, fun _ => rfl⟩ types
    distinct keys children

section
variable {context : MergeContext D} {other : String → Option Fragment}
  {found found' : List Pick}

/-- In another order the fields have the same types below them. -/
theorem MergeContext.perm_typesBelow (h : Shuffles (Pick.Like SelectionsShuffle) found found') :
    (context.typesBelow found).Perm (context.typesBelow found') := by
  refine Shuffles.perm_eraseDups (h.flatMap fun pick pick' hlike => ?_)
  obtain ⟨-, -, -, -, -, htype⟩ := Field.bare_eq_iff.1 hlike.field
  rw [isEmpty_like Shuffles.rearranges SelectionsShuffle.shuffles hlike.selections, htype]
  exact ⟨_, List.forall₂_refl _, .refl _⟩

/-- What field selections in another order are merged into is the same in another order. -/
theorem Represents.shuffles
    (hsame : ∀ definition, context.sameDefinition definition definition)
    (hF : FragmentsLike SelectionsShuffle context.fragment? other) {depth : Nat}
    {concrete : String} {node node' : Node D}
    (hr : Represents context depth concrete found node)
    (hr' : Represents { context with fragment? := other } depth concrete found' node')
    (h : Shuffles (Pick.Like SelectionsShuffle) found found') (hne : found ≠ [])
    (hkey : node.key = node'.key)
    (hm : ∀ pick ∈ found, ∀ other ∈ found, pick.Merges other)
    (hbelow : ∀ type, context.CanMerge depth (context.below depth found type)) :
    node.Shuffles node' := by
  induction hr generalizing found' node' with
  | @intro concrete found node own types keys children ih =>
    obtain ⟨own', types', hlists'⟩ := represents_iff.1 hr'
    have hne' : found' ≠ [] := by
      intro hnone
      have hempty := Shuffles.rearranges.isEmpty_eq h
      rw [hnone, List.isEmpty_nil, List.isEmpty_iff] at hempty
      exact hne hempty
    obtain ⟨first, rest, rfl⟩ := List.exists_cons_of_ne_nil hne
    obtain ⟨first', rest', rfl⟩ := List.exists_cons_of_ne_nil hne'
    -- The first field selection in the other order agrees with the first one in this order.
    obtain ⟨pick, hp, hlike⟩ := h.exists_of_mem first' (List.mem_cons_self ..)
    obtain ⟨-, hn, ha, -, -, ht⟩ := Field.bare_eq_iff.1 hlike.field
    have hmerges := hm first (List.mem_cons_self ..) pick hp
    obtain ⟨-, hname, -, htype, hcomposite⟩ := own.data first rfl
    obtain ⟨-, hname', -, htype', hcomposite'⟩ := own'.data first' rfl
    have hnames : node.name = node'.name := by rw [hname, hname', hmerges.name, hn]
    have htypename : node.isTypename = node'.isTypename := by
      rw [Node.isTypename, Node.isTypename, hnames]
    have hbelowLike :=
      below_like Shuffles.rearranges SelectionsShuffle.shuffles hF depth h
    have hpicks : ∀ type, Shuffles Eq ((context.below depth (first :: rest) type).map Pick.key)
        ((({ context with fragment? := other } : MergeContext D).below depth (first' :: rest')
          type).map Pick.key) :=
      fun type => Shuffles.rearranges.map (hbelowLike type) fun _ _ hl => hl.key_eq
    refine .intro ⟨hkey, hnames, ?_, ?_, ?_, ?_, ?_, ?_⟩ ?_ ?_ ?_ ?_
    · rw [hcomposite, hcomposite', hmerges.selections,
        isEmpty_like Shuffles.rearranges SelectionsShuffle.shuffles hlike.selections]
    · rw [Node.arguments, Node.arguments, own.occurrences, own'.occurrences]
      exact hmerges.arguments.trans ha
    · have hall : ∀ pick ∈ first :: rest, pick.field.name = first.field.name :=
        fun pick hp => (hm pick hp first (List.mem_cons_self ..)).name
      have hall' : ∀ pick' ∈ first' :: rest', pick'.field.name = first.field.name := by
        intro pick' hp'
        obtain ⟨pick, hp, hl⟩ := h.exists_of_mem pick' hp'
        obtain ⟨-, hnl, -⟩ := Field.bare_eq_iff.1 hl.field
        exact hnl.symm.trans (hall pick hp)
      rw [own.definitions, own'.definitions, htypename,
        context.definitionsOf_eq hsame concrete hne hall,
        MergeContext.definitionsOf_eq { context with fragment? := other } hsame concrete hne' hall']
    · funext vars
      have hbare : ∀ pick pick' : Pick, pick.Like SelectionsShuffle pick' →
          pick.occurrence.isIncluded vars = pick'.occurrence.isIncluded vars := by
        intro pick pick' hl
        rw [← Occurrence.isIncluded_bare, ← Occurrence.isIncluded_bare pick'.occurrence,
          hl.occurrence_bare]
      rw [Node.isIncluded, Node.isIncluded, own.occurrences, own'.occurrences, List.isEmpty_map,
        List.isEmpty_map, Shuffles.rearranges.isEmpty_eq h, List.any_map, List.any_map]
      exact congrArg _ (h.any hbare)
    · rw [htype, htype', ← ht]
      exact hmerges.type
    · intro huniform
      rw [htype', ← ht]
      refine (huniform pick.occurrence ?_).symm
      rw [own.occurrences]
      exact List.mem_map_of_mem hp
    · rw [types, types']
      exact MergeContext.perm_typesBelow h
    · intro type
      rw [keys]
      exact nodup_eraseDups _
    · intro type
      rw [keys, (hlists' type).keys]
      exact (hpicks type).perm_eraseDups
    · intro type child hc child' hc' hsameKey
      refine ih type child hc ((hlists' type).children child' hc') ?_
        (Lists.filter_ne_nil ⟨keys type, children type⟩ hc) hsameKey
        (fun pick hp other ho => (hbelow type).filter hp ho)
        fun inner => (hbelow type).below _ inner
      rw [← hsameKey]
      refine Shuffles.rearranges.filter (hbelowLike type) fun _ _ hl => ?_
      rw [hl.key_eq]

/-- Operations whose selection sets have their selections in another order have trees that differ in
the order of nodes, or none for the same reason. -/
theorem SelectionTree.ofOperation_shuffles (context : MergeContext D)
    {other : String → Option Fragment}
    (hsame : ∀ definition, context.sameDefinition definition definition)
    (hnd : ∀ type, (context.schema.possibleTypes type).Nodup)
    (hF : FragmentsLike SelectionsShuffle context.fragment? other)
    {operation operation' : Operation} (h : operation.Like SelectionsShuffle operation')
    (limit : Nat) (rootType : String)
    (hm : ∀ type, context.CanMerge (limit + 1)
      (context.rootPicks (limit + 1) rootType operation.selections type)) :
    Correspond (fun tree tree' => tree.root.owner = tree'.root.owner
        ∧ tree.root.Shuffles tree'.root)
      (ofOperation context limit operation rootType)
      (ofOperation { context with fragment? := other } limit operation' rootType) := by
  refine (ofOperation_like Shuffles.rearranges SelectionsShuffle.shuffles hF hnd h limit
    rootType).imp ?_
  rintro tree tree' ⟨-, -, hroot, hroot', htypes, htypes', hpicks, hlists, hlists'⟩
  refine ⟨by rw [hroot, hroot'], ?_⟩
  rw [hroot, hroot']
  refine Node.Shuffles.of_buckets (Node.root rootType) ?_ ?_ ?_ ?_
  · rw [htypes, htypes']
  · intro type
    rw [(hlists type).keys]
    exact nodup_eraseDups _
  · intro type
    rw [(hlists type).keys, (hlists' type).keys]
    refine Shuffles.perm_eraseDups ?_
    exact Shuffles.rearranges.map (hpicks type) fun _ _ hl => hl.key_eq
  · intro type child hc child' hc' hkey
    refine ((hlists type).children child hc).shuffles hsame hF ((hlists' type).children child' hc')
      ?_ ((hlists type).filter_ne_nil hc) hkey (fun pick hp other ho => (hm type).filter hp ho)
      fun inner => (hm type).below _ inner
    rw [← hkey]
    refine Shuffles.rearranges.filter (hpicks type) fun _ _ hl => ?_
    rw [hl.key_eq]

end

/-- The field selections of the operation may be merged where their keys meet. -/
def Document.CanMerge {W O C T : Type} (document : Document) (registry : Registry W O C T)
    (name : Option String) : Prop :=
  let context := registry.mergeContext document
  let depth := registry.configuration.recursionLimit + 1
  ∀ operation rootType, document.operation? name = some operation →
    registry.schema.root? operation.kind = some rootType → ∀ type,
      context.CanMerge depth (context.rootPicks depth rootType operation.selections type)

/-- A document and one with its selections in another order have trees that differ in the order of
nodes, or none for the same reason. -/
theorem Registry.selectionTree_shuffles {W O C T : Type} (registry : Registry W O C T)
    {document document' : Document} (hs : registry.schema.WellFormed)
    (h : document.Shuffles document') {name : Option String}
    (hm : document.CanMerge registry name) :
    Correspond (fun tree tree' => tree.root.owner = tree'.root.owner
        ∧ tree.root.Shuffles tree'.root)
      (registry.selectionTree document name) (registry.selectionTree document' name) := by
  refine registry.selectionTree_correspond (fun _ _ hl => hl.name) (fun _ _ hl => hl.kind) ?_
    h.operations
  intro operation operation' rootType ho hr hlike
  refine SelectionTree.ofOperation_shuffles (registry.mergeContext document) (fun definition => ?_)
    hs.nodup_possibleTypes h.fragmentsLike hlike _ rootType (hm operation rootType ho hr)
  exact beq_self_eq_true definition.id

end QueryEngine
