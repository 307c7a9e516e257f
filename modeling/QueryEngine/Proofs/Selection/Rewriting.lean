import QueryEngine.Proofs.Selection.Inlining
import QueryEngine.Proofs.Selection.Nesting
import QueryEngine.Proofs.Selection.Picks

/-!
# Selection sets that are written in another way

A selection set can be written in another way by repeating selections or by putting them in another
order, in it and in the sets below. `Rearranges` says what such a way has to do with lists, whatever
their items are, and `Selection.Like` relates selections whose sub-selections are written in another
way. Then the field selections that apply to a type are those of the other set, repeated or in
another order (`picks_like`, `below_like`), and both sets nest within the same limits
(`exceeds_like`), so operations that are written in another way both have trees or none
(`ofOperation_like`).
-/

namespace QueryEngine

/-! ## Lists -/

/-- A way to relate lists whose items are related: it puts items together one by one and list by
list, and both lists have the same kinds of items. -/
structure Rearranges (L : (α : Type) → (α → α → Prop) → List α → List α → Prop) : Prop where
  nil {α : Type} (R : α → α → Prop) : L α R [] []
  singleton {α : Type} {R : α → α → Prop} {x y : α} : R x y → L α R [x] [y]
  flatMap {α β : Type} {R : α → α → Prop} {S : β → β → Prop} {xs ys : List α}
    {f g : α → List β} : L α R xs ys → (∀ x y, R x y → L β S (f x) (g y)) →
      L β S (xs.flatMap f) (ys.flatMap g)
  any {α : Type} {R : α → α → Prop} {xs ys : List α} {p q : α → Bool} :
    L α R xs ys → (∀ x y, R x y → p x = q y) → xs.any p = ys.any q

namespace Rearranges

variable {L : (α : Type) → (α → α → Prop) → List α → List α → Prop} (hL : Rearranges L)
  {α β : Type} {R : α → α → Prop} {xs ys : List α}
include hL

/-- Mapping related items to related ones keeps lists rearranged. -/
theorem map {S : β → β → Prop} {f g : α → β} (h : L α R xs ys)
    (hf : ∀ x y, R x y → S (f x) (g y)) : L β S (xs.map f) (ys.map g) := by
  rw [List.map_eq_flatMap, List.map_eq_flatMap]
  exact hL.flatMap h fun x y hxy => hL.singleton (hf x y hxy)

/-- Leaving out the same kinds of items on both sides keeps lists rearranged. -/
theorem filter {p q : α → Bool} (h : L α R xs ys) (hp : ∀ x y, R x y → p x = q y) :
    L α R (xs.filter p) (ys.filter q) := by
  have hflat : ∀ (p : α → Bool) (zs : List α),
      zs.filter p = zs.flatMap fun z => if p z then [z] else [] := by
    intro p zs
    induction zs with
    | nil => rfl
    | cons z rest ih =>
      rw [List.filter_cons, List.flatMap_cons, ih]
      split <;> rfl
  rw [hflat, hflat]
  refine hL.flatMap h fun x y hxy => ?_
  rw [hp x y hxy]
  split
  · exact hL.singleton hxy
  · exact hL.nil R

/-- A list is empty exactly if a rearrangement of it is. -/
theorem isEmpty_eq (h : L α R xs ys) : xs.isEmpty = ys.isEmpty := by
  have hany : xs.any (fun _ => true) = ys.any fun _ => true := hL.any h fun _ _ _ => rfl
  cases xs <;> cases ys <;> simp_all

end Rearranges

/-! ## Selections -/

/-- The selections are the same up to their numbers, and their sub-selections are related. -/
inductive Selection.Like (R : List Selection → List Selection → Prop) :
    Selection → Selection → Prop
  | field {field field' : Field} {selections selections' : List Selection}
    (hf : field.bare = field'.bare) (hs : R selections selections') :
    Like R (.field field selections) (.field field' selections')
  | inlineFragment {inline inline' : InlineFragment} {selections selections' : List Selection}
    (hc : inline.condition? = inline'.condition?) (hd : inline.directives = inline'.directives)
    (hs : R selections selections') :
    Like R (.inlineFragment inline selections) (.inlineFragment inline' selections')
  | fragmentSpread {spread spread' : FragmentSpread} (hf : spread.fragment = spread'.fragment)
    (hd : spread.directives = spread'.directives) :
    Like R (.fragmentSpread spread) (.fragmentSpread spread')

/-- The fragments are the same up to the numbers of selections and their selections are related. -/
structure Fragment.Like (R : List Selection → List Selection → Prop)
    (fragment fragment' : Fragment) : Prop where
  name : fragment.name = fragment'.name
  condition : fragment.condition = fragment'.condition
  selections : R fragment.selections fragment'.selections

/-- The operations are the same up to the numbers of selections and their selections are related. -/
structure Operation.Like (R : List Selection → List Selection → Prop)
    (operation operation' : Operation) : Prop where
  kind : operation.kind = operation'.kind
  name : operation.name? = operation'.name?
  selections : R operation.selections operation'.selections

/-- The documents are the same up to the numbers of selections, and the selections of their
operations and fragments are related. -/
structure Document.Like (R : List Selection → List Selection → Prop)
    (document document' : Document) : Prop where
  operations : List.Forall₂ (Operation.Like R) document.operations document'.operations
  fragments : List.Forall₂ (Fragment.Like R) document.fragments document'.fragments

/-- The same fragments are found, up to the numbers of selections, and their selections are
related. -/
def FragmentsLike (R : List Selection → List Selection → Prop)
    (fragment? other : String → Option Fragment) : Prop :=
  ∀ name, (fragment? name = none ∧ other name = none)
    ∨ ∃ fragment fragment', fragment? name = some fragment ∧ other name = some fragment'
      ∧ fragment.Like R fragment'

/-- The field selections are the same up to the numbers of selections, and their sub-selections are
related. -/
structure Pick.Like (R : List Selection → List Selection → Prop) (pick pick' : Pick) : Prop where
  field : pick.field.bare = pick'.field.bare
  selections : R pick.selections pick'.selections
  guards : pick.guards.map Guard.bare = pick'.guards.map Guard.bare

/-- Field selections that are alike have one key. -/
theorem Pick.Like.key_eq {R : List Selection → List Selection → Prop} {pick pick' : Pick}
    (h : pick.Like R pick') : pick.key = pick'.key :=
  Field.key_of_bare_eq h.field

/-- Field selections that are alike are one occurrence up to numbers. -/
theorem Pick.Like.occurrence_bare {R : List Selection → List Selection → Prop}
    {pick pick' : Pick} (h : pick.Like R pick') :
    pick.occurrence.bare = pick'.occurrence.bare := by
  rw [Occurrence.bare, Occurrence.bare]
  exact congrArg₂ Occurrence.mk h.field h.guards

/-- Documents that are alike find the same fragments. -/
theorem Document.Like.fragmentsLike {R : List Selection → List Selection → Prop}
    {document document' : Document} (h : document.Like R document') :
    FragmentsLike R document.fragment? document'.fragment? := by
  intro name
  have hrel : Option.Rel (Fragment.Like R) (document.fragment? name)
      (document'.fragment? name) := by
    refine rel_find? ?_ h.fragments
    intro fragment fragment' hlike
    rw [hlike.name]
  cases hf : document.fragment? name <;> cases hf' : document'.fragment? name
    <;> rw [hf, hf'] at hrel <;> cases hrel
  · exact .inl ⟨rfl, rfl⟩
  · exact .inr ⟨_, _, rfl, rfl, ‹_›⟩

/-! ## Trees -/

section
variable {D : Type}

/-- What is picked of the selections of an operation for a type: there is only the root type. -/
def MergeContext.rootPicks (context : MergeContext D) (depth : Nat) (rootType : String)
    (selections : List Selection) (type : String) : List Pick :=
  if type = rootType then context.picks depth type selections [] else []

/-- The trees of two operations: their roots have one bucket, for the root type, and list what is
picked of the operations, which `P` relates. -/
structure RootsList (P : List Pick → List Pick → Prop) (context context' : MergeContext D)
    (depth : Nat) (rootType : String) (operation operation' : Operation)
    (tree tree' : SelectionTree D) : Prop where
  kind : tree.kind = operation.kind
  kind' : tree'.kind = operation'.kind
  root : tree.root = { Node.root rootType with buckets := tree.root.buckets }
  root' : tree'.root = { Node.root rootType with buckets := tree'.root.buckets }
  types : tree.root.buckets.map Bucket.type = [rootType]
  types' : tree'.root.buckets.map Bucket.type = [rootType]
  picks : ∀ type, P (context.rootPicks depth rootType operation.selections type)
    (context'.rootPicks depth rootType operation'.selections type)
  lists : ∀ type, Lists context depth type
    (context.rootPicks depth rootType operation.selections type)
    (Bucket.nodesOf type tree.root.buckets)
  lists' : ∀ type, Lists context' depth type
    (context'.rootPicks depth rootType operation'.selections type)
    (Bucket.nodesOf type tree'.root.buckets)

end

/-! ## What is found -/

section
variable {L : (α : Type) → (α → α → Prop) → List α → List α → Prop} (hL : Rearranges L)
  {R : List Selection → List Selection → Prop}
  (hR : ∀ selections selections', R selections selections' →
    L Selection (Selection.Like R) selections selections')
  {D : Type} {context : MergeContext D} {other : String → Option Fragment}
  (hF : FragmentsLike R context.fragment? other)
include hL hR

/-- A selection set is empty exactly if what it is rewritten to is. -/
theorem isEmpty_like {selections selections' : List Selection} (h : R selections selections') :
    selections.isEmpty = selections'.isEmpty :=
  hL.isEmpty_eq (hR _ _ h)

include hF

/-- Selection sets that are written in another way have the same picks, repeated or in another
order. -/
theorem picks_like (depth : Nat) (concrete : String) {selections selections' : List Selection}
    (hs : R selections selections') {guards guards' : List Guard}
    (hg : guards.map Guard.bare = guards'.map Guard.bare) :
    L Pick (Pick.Like R) (context.picks depth concrete selections guards)
      (({ context with fragment? := other } : MergeContext D).picks depth concrete selections'
        guards') := by
  induction depth generalizing selections selections' guards guards' with
  | zero => exact hL.nil _
  | succ depth ih =>
    refine hL.flatMap (hR _ _ hs) fun selection selection' hlike => ?_
    have hguards : ∀ {guard guard' : Guard}, guard.directives = guard'.directives →
        (guards ++ [guard]).map Guard.bare = (guards' ++ [guard']).map Guard.bare := by
      intro guard guard' hd
      rw [List.map_append, List.map_append, hg, List.map_singleton, List.map_singleton,
        Guard.bare_eq_iff.2 hd]
    cases hlike with
    | field hf hs => exact hL.singleton ⟨hf, hs, hg⟩
    | inlineFragment hc hd hs =>
      simp only [MergeContext.picksOne, hc]
      split
      · exact ih hs (hguards hd)
      · exact hL.nil _
    | @fragmentSpread spread spread' hf hd =>
      simp only [MergeContext.picksOne]
      rw [← hf]
      rcases hF spread.fragment with ⟨hnone, hnone'⟩ | ⟨fragment, fragment', hsome, hsome', hlike⟩
      · rw [hnone, hnone']
        exact hL.nil _
      · rw [hsome, hsome']
        simp only [hlike.condition]
        split
        · exact ih hlike.selections (hguards hd)
        · exact hL.nil _

/-- The picks below picks of selections that are written in another way. -/
theorem below_like (depth : Nat) {found found' : List Pick}
    (h : L Pick (Pick.Like R) found found') (concrete : String) :
    L Pick (Pick.Like R) (context.below depth found concrete)
      (({ context with fragment? := other } : MergeContext D).below depth found' concrete) := by
  refine hL.flatMap h fun pick pick' hlike => ?_
  obtain ⟨-, -, -, hdirectives, -, htype⟩ := Field.bare_eq_iff.1 hlike.field
  have hguards : (pick.guards ++ [Guard.field pick.field]).map Guard.bare
      = (pick'.guards ++ [Guard.field pick'.field]).map Guard.bare := by
    simp [hlike.guards, Guard.bare_eq_iff, Guard.directives, hdirectives]
  rw [htype]
  split
  · exact picks_like hL hR hF depth concrete hlike.selections hguards
  · exact hL.nil _

/-- Selection sets that are written in another way nest within the same limits. -/
theorem exceeds_like (depth : Nat) {selections selections' : List Selection}
    (hs : R selections selections') (types : List String) :
    context.exceeds depth selections types
      = ({ context with fragment? := other } : MergeContext D).exceeds depth selections'
        types := by
  induction depth generalizing selections selections' types with
  | zero => rfl
  | succ depth ih =>
    refine hL.any (hR _ _ hs) fun selection selection' hlike => ?_
    cases hlike with
    | field hf hs =>
      obtain ⟨-, -, -, -, -, htype⟩ := Field.bare_eq_iff.1 hf
      simp only [htype, ih hs, isEmpty_like hL hR hs]
    | inlineFragment hc hd hs =>
      simp only [hc, ih hs]
      rfl
    | @fragmentSpread spread spread' hf hd =>
      simp only
      rw [← hf]
      rcases hF spread.fragment with ⟨hnone, hnone'⟩ | ⟨fragment, fragment', hsome, hsome', hlike⟩
      · rw [hnone, hnone']
        rfl
      · rw [hsome, hsome']
        simp only [Option.any_some, hlike.condition, ih hlike.selections]
        rfl

/-- Operations that are written in another way both have trees, or none for the same reason. -/
theorem SelectionTree.ofOperation_like (hnd : ∀ type, (context.schema.possibleTypes type).Nodup)
    {operation operation' : Operation} (h : operation.Like R operation') (limit : Nat)
    (rootType : String) :
    Correspond (RootsList (L Pick (Pick.Like R)) context { context with fragment? := other }
        (limit + 1) rootType operation operation')
      (ofOperation context limit operation rootType)
      (ofOperation { context with fragment? := other } limit operation' rootType) := by
  let context' : MergeContext D := { context with fragment? := other }
  have hfails := (context.fails_collect (limit + 1) operation.selections [rootType] []
    (Node.root rootType).buckets).map fun buckets =>
      (⟨operation.kind, { Node.root rootType with buckets }⟩ : SelectionTree D)
  have hfails' := (context'.fails_collect (limit + 1) operation'.selections [rootType] []
    (Node.root rootType).buckets).map fun buckets =>
      (⟨operation'.kind, { Node.root rootType with buckets }⟩ : SelectionTree D)
  rw [← exceeds_like hL hR hF _ h.selections] at hfails'
  change Fails (ofOperation context limit operation rootType) _ at hfails
  change Fails (ofOperation context' limit operation' rootType) _ at hfails'
  show Correspond _ _ (ofOperation context' limit operation' rootType)
  cases hflag : context.exceeds (limit + 1) operation.selections [rootType] with
  | true =>
    rw [hflag] at hfails hfails'
    rw [show ofOperation context limit operation rootType = _ from hfails,
      show ofOperation context' limit operation' rootType = _ from hfails']
    exact .error _
  | false =>
    rw [hflag] at hfails hfails'
    obtain ⟨tree, ht⟩ := hfails
    obtain ⟨tree', ht'⟩ := hfails'
    have hnd' : ∀ type, (context'.schema.possibleTypes type).Nodup := hnd
    obtain ⟨buckets, rfl, htypes, hlists⟩ := exists_buckets hnd (Nat.lt_succ_self limit) ht
    obtain ⟨buckets', rfl, htypes', hlists'⟩ := exists_buckets hnd' (Nat.lt_succ_self limit) ht'
    rw [ht, ht']
    refine .ok ⟨rfl, rfl, rfl, rfl, htypes, htypes', fun type => ?_, hlists, hlists'⟩
    unfold MergeContext.rootPicks
    split
    · exact picks_like hL hR hF _ type h.selections rfl
    · exact hL.nil _

end

end QueryEngine
