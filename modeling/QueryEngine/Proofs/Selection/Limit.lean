import Mathlib.Data.List.Chain
import QueryEngine.Proofs.Selection.Nesting

/-!
# The recursion limit is a guard

The recursion limit decides whether an operation has a selection tree, and nothing else. Merging
exceeds a depth just if so many selection sets open one another (`MergeContext.exceeds_iff`), and
what it yields down to a depth it yields down to every greater one (`MergeContext.collect_mono`). So
for an operation, whether or not its fragments spread each other, a greater limit keeps the tree
that there is, and there is none for the limit's sake just if a chain of nested selection sets is
longer than the limit (`selectionTree_recursionLimit`).
-/

namespace QueryEngine

variable {D : Type}

/-- A selection set with the types of the objects that it is merged for. -/
structure Scope where
  selections : List Selection
  types : List String

namespace MergeContext

/-- Merging the outer selection set goes on to the inner one. It goes on to the sub-selection of a
field if any type is left, and to the selections of a fragment in any case. -/
inductive Opens (context : MergeContext D) : Scope → Scope → Prop
  | field {scope : Scope} {field : Field} {inner : List Selection}
    (mem : .field field inner ∈ scope.selections) (types : scope.types ≠ []) (some : inner ≠ []) :
    Opens context scope ⟨inner, context.schema.possibleTypes field.type.inner⟩
  | inlineFragment {scope : Scope} {fragment : InlineFragment} {inner : List Selection}
    (mem : .inlineFragment fragment inner ∈ scope.selections) :
    Opens context scope
      ⟨inner, fragment.condition?.elim scope.types (context.narrow scope.types)⟩
  | fragmentSpread {scope : Scope} {spread : FragmentSpread} {fragment : Fragment}
    (mem : .fragmentSpread spread ∈ scope.selections)
    (found : context.fragment? spread.fragment = some fragment) :
    Opens context scope
      ⟨fragment.selections, context.narrow scope.types fragment.condition⟩

/-! ## What exceeds the limit -/

section
variable {context : MergeContext D}

/-- Merging exceeds a depth in a selection set that it goes on to, or nowhere. -/
theorem exceeds_succ_iff {depth : Nat} {scope : Scope} :
    context.exceeds (depth + 1) scope.selections scope.types
      ↔ ∃ inner, context.Opens scope inner
        ∧ context.exceeds depth inner.selections inner.types := by
  rw [exceeds, List.any_eq_true]
  constructor
  · rintro ⟨selection, hmem, h⟩
    cases selection with
    | field field inner =>
      obtain ⟨type, htype, h⟩ := List.any_eq_true.1 h
      rw [Bool.and_eq_true, Bool.not_eq_true', List.isEmpty_eq_false_iff] at h
      exact ⟨_, .field hmem (List.ne_nil_of_mem htype) h.1, h.2⟩
    | inlineFragment fragment inner => exact ⟨_, .inlineFragment hmem, h⟩
    | fragmentSpread spread =>
      obtain ⟨fragment, found, h⟩ := (Option.any_eq_true _ _).1 h
      exact ⟨_, .fragmentSpread hmem found, h⟩
  · rintro ⟨_, hopens, h⟩
    cases hopens with
    | field hmem htypes hsome =>
      refine ⟨_, hmem, ?_⟩
      obtain ⟨type, htype⟩ := List.exists_mem_of_ne_nil _ htypes
      refine List.any_eq_true.2 ⟨type, htype, ?_⟩
      rw [Bool.and_eq_true, Bool.not_eq_true', List.isEmpty_eq_false_iff]
      exact ⟨hsome, h⟩
    | inlineFragment hmem => exact ⟨_, hmem, h⟩
    | fragmentSpread hmem found => exact ⟨_, hmem, (Option.any_eq_true _ _).2 ⟨_, found, h⟩⟩

/-- Merging exceeds a depth just if so many selection sets, one in the other, follow the given
one. -/
theorem exceeds_iff {depth : Nat} {scope : Scope} :
    context.exceeds depth scope.selections scope.types
      ↔ ∃ chain, chain.length = depth ∧ List.IsChain context.Opens (scope :: chain) := by
  induction depth generalizing scope with
  | zero => exact ⟨fun _ => ⟨[], rfl, .singleton _⟩, fun _ => rfl⟩
  | succ depth ih =>
    rw [exceeds_succ_iff]
    constructor
    · rintro ⟨inner, hopens, h⟩
      obtain ⟨chain, rfl, hchain⟩ := ih.1 h
      exact ⟨inner :: chain, rfl, .cons_cons hopens hchain⟩
    · rintro ⟨chain, hlength, hchain⟩
      obtain ⟨inner, rest, rfl⟩ := List.exists_cons_of_length_eq_add_one hlength
      obtain ⟨hopens, hrest⟩ := List.isChain_cons_cons.1 hchain
      exact ⟨inner, hopens, ih.2 ⟨rest, Nat.succ_injective hlength, hrest⟩⟩

/-- A longer chain will do as well. -/
theorem exceeds_iff_lt (context : MergeContext D) (limit : Nat) (scope : Scope) :
    context.exceeds (limit + 1) scope.selections scope.types
      ↔ ∃ chain, limit < chain.length ∧ List.IsChain context.Opens (scope :: chain) := by
  rw [exceeds_iff]
  constructor
  · rintro ⟨chain, hlength, hchain⟩
    exact ⟨chain, by omega, hchain⟩
  · rintro ⟨chain, hlength, hchain⟩
    refine ⟨chain.take (limit + 1), List.length_take_of_le hlength, ?_⟩
    exact hchain.take (limit + 2)

end

end MergeContext

/-! ## What a greater limit keeps -/

/-- The second computation yields what the first one does, where that one succeeds. -/
def Extends {ε α β : Type} (first second : α → Except ε β) : Prop :=
  ∀ a b, first a = .ok b → second a = .ok b

namespace Extends

variable {ε α β γ : Type}

/-- Mapping both results keeps the second an extension of the first. -/
theorem map {first second : α → Except ε β} (h : Extends first second) (f : α → β → γ) :
    Extends (fun a => (first a).map (f a)) (fun a => (second a).map (f a)) := by
  intro a c hc
  obtain ⟨b, hb, rfl⟩ := map_eq_ok_iff.1 hc
  exact map_eq_ok_iff.2 ⟨b, h a b hb, rfl⟩

/-- Folding steps that extend each other gives folds that do. -/
theorem foldlM {first second : β → α → Except ε β} (items : List α)
    (h : ∀ item, Extends (first · item) (second · item)) :
    Extends (items.foldlM first) (items.foldlM second) := by
  induction items with
  | nil => exact fun _ _ h => h
  | cons item rest ih =>
    intro b result hresult
    simp only [List.foldlM_cons] at hresult ⊢
    obtain ⟨mid, hm, hr⟩ := bind_eq_ok_iff.1 hresult
    exact bind_eq_ok_iff.2 ⟨mid, h item b mid hm, ih mid result hr⟩

/-- Changing a node by more is changing the nodes by more. -/
theorem updateNode {first second : Node D → Except BuildError (Node D)} (h : Extends first second)
    (key : String) (fresh : Node D) :
    Extends (Bucket.updateNode key fresh first) (Bucket.updateNode key fresh second) := by
  intro nodes
  induction nodes with
  | nil => exact h.map (fun _ node => [node]) fresh
  | cons node rest ih =>
    simp only [Bucket.updateNode]
    split
    · exact h.map (fun _ node => node :: rest) node
    · intro result hresult
      obtain ⟨rest', hr, rfl⟩ := map_eq_ok_iff.1 hresult
      exact map_eq_ok_iff.2 ⟨rest', ih rest' hr, rfl⟩

/-- Changing a bucket by more is changing the buckets by more. -/
theorem update {first second : List (Node D) → Except BuildError (List (Node D))}
    (h : Extends first second) (type : String) :
    Extends (Bucket.update type first) (Bucket.update type second) := by
  intro buckets
  induction buckets with
  | nil => exact h.map (fun _ nodes => [Bucket.mk type nodes]) []
  | cons bucket rest ih =>
    simp only [Bucket.update]
    split
    · exact h.map (fun _ nodes => ⟨type, nodes⟩ :: rest) bucket.nodes
    · intro result hresult
      obtain ⟨rest', hr, rfl⟩ := map_eq_ok_iff.1 hresult
      exact map_eq_ok_iff.2 ⟨rest', ih rest' hr, rfl⟩

end Extends

namespace MergeContext

section
variable {context : MergeContext D} {descend descend' : Collector D}
  (h : ∀ selections types guards,
    Extends (descend selections types guards) (descend' selections types guards))
include h

/-- Merging a field goes as far as the way into its sub-selections does. -/
theorem extends_mergeField (field : Field) (selections : List Selection) (guards : List Guard)
    (concrete : String) :
    Extends (context.mergeField descend field selections guards concrete)
      (context.mergeField descend' field selections guards concrete) := by
  intro node result hresult
  unfold mergeField at hresult ⊢
  split
  case isTrue hempty => rwa [if_pos hempty] at hresult
  case isFalse hsome =>
    rw [if_neg hsome] at hresult
    obtain ⟨buckets, hb, rfl⟩ := map_eq_ok_iff.1 hresult
    exact map_eq_ok_iff.2 ⟨buckets, h _ _ _ _ _ hb, rfl⟩

/-- Collecting a selection goes as far as the way into its sub-selections does. -/
theorem extends_collectOne (types : List String) (guards : List Guard) (selection : Selection) :
    Extends (context.collectOne descend types guards · selection)
      (context.collectOne descend' types guards · selection) := by
  cases selection with
  | field field inner =>
    refine Extends.foldlM types fun concrete => ?_
    exact ((extends_mergeField h field inner guards concrete).updateNode _ _).update _
  | inlineFragment fragment inner => exact h _ _ _
  | fragmentSpread spread =>
    intro buckets result hresult
    simp only [collectOne] at hresult ⊢
    split
    case h_1 missing => rwa [missing] at hresult
    case h_2 fragment found =>
      rw [found] at hresult
      exact h _ _ _ _ _ hresult

end

/-- What merging yields down to a depth it yields down to a greater one. -/
theorem collect_mono (context : MergeContext D) {depth depth' : Nat} (hle : depth ≤ depth')
    (selections : List Selection) (types : List String) (guards : List Guard) :
    Extends (context.collect depth selections types guards)
      (context.collect depth' selections types guards) := by
  induction depth generalizing depth' selections types guards with
  | zero => exact fun _ _ h => by cases h
  | succ depth ih =>
    obtain ⟨depth', rfl⟩ : ∃ less, depth' = less + 1 := ⟨depth' - 1, by omega⟩
    exact Extends.foldlM selections fun selection =>
      extends_collectOne (fun selections types guards => ih (by omega) selections types guards)
        types guards selection

end MergeContext

/-! ## The limit of a registry -/

/-- An operation has a tree, unless a chain of selection sets is longer than the limit. -/
theorem SelectionTree.fails_ofOperation (context : MergeContext D) (limit : Nat)
    (operation : Operation) (rootType : String) :
    Fails (SelectionTree.ofOperation context limit operation rootType)
      (context.exceeds (limit + 1) operation.selections [rootType]) :=
  (context.fails_collect ..).map _

/-- The tree of an operation stays its tree under a greater limit. -/
theorem SelectionTree.ofOperation_mono (context : MergeContext D) {limit limit' : Nat}
    (hle : limit ≤ limit') {operation : Operation} {rootType : String} {tree : SelectionTree D}
    (h : SelectionTree.ofOperation context limit operation rootType = .ok tree) :
    SelectionTree.ofOperation context limit' operation rootType = .ok tree := by
  obtain ⟨buckets, hb, rfl⟩ := map_eq_ok_iff.1 h
  exact map_eq_ok_iff.2 ⟨buckets, context.collect_mono (by omega) _ _ _ _ _ hb, rfl⟩

variable {W O C T : Type}

/-- The registry with another recursion limit. -/
def Registry.withRecursionLimit (registry : Registry W O C T) (limit : Nat) : Registry W O C T :=
  { registry with configuration := { registry.configuration with recursionLimit := limit } }

/-- Selections are merged, if the document has the operation and the schema the type for it. -/
theorem Registry.selectionTree_cases (registry : Registry W O C T) (document : Document)
    (name : Option String) :
    (∃ operation rootType, document.operation? name = some operation
        ∧ registry.schema.root? operation.kind = some rootType
        ∧ ∀ limit, (registry.withRecursionLimit limit).selectionTree document name
          = SelectionTree.ofOperation (registry.mergeContext document) limit operation rootType)
      ∨ (∀ operation, document.operation? name = some operation →
          registry.schema.root? operation.kind = none)
        ∧ ∃ refusal, refusal ≠ .recursionLimitExceeded
          ∧ ∀ limit, (registry.withRecursionLimit limit).selectionTree document name
            = .error refusal := by
  cases ho : document.operation? name with
  | none =>
    refine .inr ⟨nofun, .unknownOperation (name.getD ""), nofun, fun limit => ?_⟩
    rw [selectionTree, ho]
  | some operation =>
    cases hr : registry.schema.root? operation.kind with
    | none =>
      refine .inr ⟨fun _ h => by rwa [← Option.some.inj h], .missingRootType operation.kind, nofun,
        fun limit => ?_⟩
      rw [selectionTree, ho, withRecursionLimit]
      simp only [hr]
    | some rootType =>
      refine .inl ⟨operation, rootType, rfl, hr, fun limit => ?_⟩
      rw [selectionTree, ho, withRecursionLimit]
      simp only [hr]
      rfl

/-- What the recursion limit does to the selection tree of an operation, whatever the schema and the
document. Under every limit there is a tree, or the limit is exceeded, or the operation is refused
for a reason that has nothing to do with the limit. A tree stays as it is under a greater limit. The
limit is exceeded just if the operation has more nested selection sets, each opened by merging the
one before, than the limit says. -/
theorem selectionTree_recursionLimit (registry : Registry W O C T) (document : Document)
    (name : Option String) {limit limit' : Nat} (hle : limit ≤ limit') :
    ((∃ tree, (registry.withRecursionLimit limit).selectionTree document name = .ok tree)
        ∨ (registry.withRecursionLimit limit).selectionTree document name
          = .error .recursionLimitExceeded
        ∨ ∃ refusal, refusal ≠ .recursionLimitExceeded
          ∧ ∀ limit, (registry.withRecursionLimit limit).selectionTree document name
            = .error refusal)
      ∧ (∀ tree, (registry.withRecursionLimit limit).selectionTree document name = .ok tree →
          (registry.withRecursionLimit limit').selectionTree document name = .ok tree)
      ∧ ((registry.withRecursionLimit limit).selectionTree document name
            = .error .recursionLimitExceeded
          ↔ ∃ operation rootType chain, document.operation? name = some operation
            ∧ registry.schema.root? operation.kind = some rootType ∧ limit < chain.length
            ∧ List.IsChain (registry.mergeContext document).Opens
              (⟨operation.selections, [rootType]⟩ :: chain)) := by
  rcases registry.selectionTree_cases document name with
    ⟨operation, rootType, ho, hr, htree⟩ | ⟨hnone, refusal, hrefusal, herror⟩
  · have hfails := SelectionTree.fails_ofOperation (registry.mergeContext document) limit operation
      rootType
    have hchain := (registry.mergeContext document).exceeds_iff_lt limit
      ⟨operation.selections, [rootType]⟩
    simp only [htree]
    cases hexceeds : (registry.mergeContext document).exceeds (limit + 1) operation.selections
        [rootType] with
    | true =>
      rw [hexceeds] at hfails hchain
      obtain ⟨chain, hlt, hopens⟩ := hchain.1 rfl
      refine ⟨.inr (.inl hfails), fun tree h => ?_, fun _ => ?_, fun _ => hfails⟩
      · exact SelectionTree.ofOperation_mono _ hle h
      · exact ⟨operation, rootType, chain, ho, hr, hlt, hopens⟩
    | false =>
      rw [hexceeds] at hfails hchain
      obtain ⟨tree, hok⟩ := hfails
      refine ⟨.inl ⟨tree, hok⟩, fun tree h => ?_, fun h => ?_, ?_⟩
      · exact SelectionTree.ofOperation_mono _ hle h
      · rw [hok] at h
        cases h
      · rintro ⟨_, _, chain, ho', hr', hlt, hopens⟩
        rw [ho] at ho'
        cases ho'
        rw [hr] at hr'
        cases hr'
        cases hchain.2 ⟨chain, hlt, hopens⟩
  · refine ⟨.inr (.inr ⟨refusal, hrefusal, herror⟩), fun tree h => ?_, fun h => ?_, ?_⟩
    · rw [herror] at h
      cases h
    · rw [herror] at h
      exact absurd (Except.error.inj h) hrefusal
    · rintro ⟨operation, rootType, _, ho, hr, _⟩
      rw [hnone operation ho] at hr
      cases hr

/-- A schema whose only type has a field of its own type. -/
def loopRegistry : Registry Unit Unit Unit Unit where
  schema :=
    { types := [⟨"Query", .object [] [⟨"self", .named "Query", []⟩]⟩]
      query := "Query", mutation := none, subscription := none }

/-- A document with a fragment that spreads itself, and an operation that does not spread it. -/
def loopDocument : Document where
  operations :=
    [⟨.query, some "Loop", [.fragmentSpread ⟨0, "Again", []⟩]⟩,
     ⟨.query, some "Self", [.field ⟨1, none, "self", [], [], "Query", .named "Query"⟩
       [.field ⟨2, none, "__typename", [], [], "Query", .nonNullNamed "String"⟩ []]]⟩]
  fragments := [⟨"Again", "Query", [.fragmentSpread ⟨3, "Again", []⟩]⟩]

/-- The fragment that spreads itself is followed over the limit; the other operation has one nested
selection set, and its tree under the limit one is its tree under the limit three. -/
theorem selectionTree_recursionLimit_loopDocument :
    (1 : Nat) ≤ 3
      ∧ (loopRegistry.withRecursionLimit 1).selectionTree loopDocument (some "Loop")
        = .error .recursionLimitExceeded
      ∧ ∃ tree, (loopRegistry.withRecursionLimit 1).selectionTree loopDocument (some "Self")
          = .ok tree
        ∧ (loopRegistry.withRecursionLimit 3).selectionTree loopDocument (some "Self")
          = .ok tree := by
  have hle : (1 : Nat) ≤ 3 := by decide
  obtain ⟨-, -, exceeded⟩ :=
    selectionTree_recursionLimit loopRegistry loopDocument (some "Loop") hle
  obtain ⟨-, kept, -⟩ := selectionTree_recursionLimit loopRegistry loopDocument (some "Self") hle
  have again : Selection.fragmentSpread ⟨3, "Again", []⟩
      ∈ [Selection.fragmentSpread ⟨3, "Again", []⟩] := List.mem_singleton.2 rfl
  have chained : ∃ chain, 1 < chain.length
      ∧ List.IsChain (loopRegistry.mergeContext loopDocument).Opens
        (⟨[.fragmentSpread ⟨0, "Again", []⟩], ["Query"]⟩ :: chain) := by
    refine ⟨_, ?_, .cons_cons (.fragmentSpread (List.mem_singleton.2 rfl) rfl)
      (.cons_cons (.fragmentSpread again rfl) (.singleton _))⟩
    exact Nat.one_lt_two
  obtain ⟨chain, hlt, hopens⟩ := chained
  exact ⟨hle, exceeded.2 ⟨_, _, chain, rfl, rfl, hlt, hopens⟩, _, rfl, kept _ rfl⟩

end QueryEngine
