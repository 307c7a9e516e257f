import QueryEngine.Proofs.Selection.Collect
import QueryEngine.Proofs.Selection.Limit

/-!
# Documents without what their directives leave out

`Document.prune` deletes every field, every inline fragment and every fragment spread whose own
directives leave it out, in the operations and in the fragments. What is picked of a pruned
selection set are the picks that are kept, each with its sub-selection pruned (`picks_prune`,
`below_prune`), and a pruned operation does not nest deeper (`exceeds_prune`), so it has a selection
tree if the operation has one (`SelectionTree.exists_ofOperation_prune`).
-/

namespace QueryEngine

/-! ## Pruning -/

mutual

/-- The selection with its sub-selection pruned, if its own directives leave it in. -/
def Selection.prune? (keep : List Directive → Bool) : Selection → Option Selection
  | .field field inner =>
    if keep field.directives then some (.field field (pruneSelections keep inner)) else none
  | .inlineFragment fragment inner =>
    if keep fragment.directives then some (.inlineFragment fragment (pruneSelections keep inner))
    else none
  | .fragmentSpread spread =>
    if keep spread.directives then some (.fragmentSpread spread) else none

/-- The selections that their own directives leave in, with their sub-selections pruned. -/
def pruneSelections (keep : List Directive → Bool) : List Selection → List Selection
  | [] => []
  | selection :: rest => (selection.prune? keep).toList ++ pruneSelections keep rest
end

/-- The fragment with its selections pruned. -/
def Fragment.prune (keep : List Directive → Bool) (fragment : Fragment) : Fragment :=
  { fragment with selections := pruneSelections keep fragment.selections }

/-- The operation with its selections pruned. -/
def Operation.prune (keep : List Directive → Bool) (operation : Operation) : Operation :=
  { operation with selections := pruneSelections keep operation.selections }

/-- The document with all its selections pruned. -/
def Document.prune (keep : List Directive → Bool) (document : Document) : Document :=
  ⟨document.operations.map (Operation.prune keep), document.fragments.map (Fragment.prune keep)⟩

/-- The field selection with its sub-selection pruned. -/
def Pick.prune (keep : List Directive → Bool) (pick : Pick) : Pick :=
  { pick with selections := pruneSelections keep pick.selections }

/-- The field selections that are kept, with their sub-selections pruned. -/
def prunePicks (keep : List Directive → Bool) (found : List Pick) : List Pick :=
  (found.filter (·.isKept keep)).map (Pick.prune keep)

/-- Merging with the fragments pruned. -/
def MergeContext.prune {D : Type} (keep : List Directive → Bool) (context : MergeContext D) :
    MergeContext D :=
  { context with fragment? := fun name => (context.fragment? name).map (Fragment.prune keep) }

/-- The selection set pruned. -/
def Scope.prune (keep : List Directive → Bool) (scope : Scope) : Scope :=
  { scope with selections := pruneSelections keep scope.selections }

section
variable {keep : List Directive → Bool}

/-- Pruning works on each selection of a set by itself. -/
theorem pruneSelections_eq_flatMap (keep : List Directive → Bool) (selections : List Selection) :
    pruneSelections keep selections
      = selections.flatMap fun selection => (selection.prune? keep).toList := by
  induction selections with
  | nil => rfl
  | cons selection rest ih => rw [pruneSelections, ih, List.flatMap_cons]

/-- A selection of a pruned set is what is left of one that is kept. -/
theorem mem_pruneSelections {selections : List Selection} {selection : Selection} :
    selection ∈ pruneSelections keep selections
      ↔ ∃ whole ∈ selections, whole.prune? keep = some selection := by
  simp [pruneSelections_eq_flatMap]

/-- A pruned selection is of the same form as the whole one, and has its sub-selection pruned. -/
theorem Selection.prune?_eq_some {whole selection : Selection}
    (h : whole.prune? keep = some selection) :
    match selection with
    | .field own inner => ∃ all, whole = .field own all ∧ inner = pruneSelections keep all
    | .inlineFragment fragment inner =>
      ∃ all, whole = .inlineFragment fragment all ∧ inner = pruneSelections keep all
    | .fragmentSpread spread => whole = .fragmentSpread spread := by
  cases whole <;> simp only [prune?, Option.ite_none_right_eq_some, Option.some.injEq] at h <;>
    obtain ⟨-, rfl⟩ := h
  case field own all => exact ⟨all, rfl, rfl⟩
  case inlineFragment fragment all => exact ⟨all, rfl, rfl⟩
  case fragmentSpread => rfl

/-! ## Operations and fragments -/

/-- Looking an operation up and pruning it can be done in either order. -/
theorem Document.operation?_prune (document : Document) (name : Option String) :
    (document.prune keep).operation? name
      = (document.operation? name).map (Operation.prune keep) := by
  cases name with
  | some name =>
    rw [operation?, operation?, Document.prune, List.find?_map]
    rfl
  | none =>
    obtain ⟨operations, fragments⟩ := document
    match operations with
    | [] | [_] | _ :: _ :: _ => rfl

/-- Looking a fragment up and pruning it can be done in either order. -/
theorem Document.fragment?_prune (document : Document) (name : String) :
    (document.prune keep).fragment? name = (document.fragment? name).map (Fragment.prune keep) := by
  rw [fragment?, fragment?, Document.prune, List.find?_map]
  rfl

/-- Merging a pruned document is merging with pruned fragments. -/
theorem Registry.mergeContext_prune {W O C T : Type} (registry : Registry W O C T)
    (document : Document) :
    registry.mergeContext (document.prune keep) = (registry.mergeContext document).prune keep := by
  have hfragments : (document.prune keep).fragment?
      = fun name => (document.fragment? name).map (Fragment.prune keep) :=
    funext document.fragment?_prune
  rw [mergeContext, hfragments]
  rfl

/-! ## Picks -/

@[simp] theorem Fragment.condition_prune (fragment : Fragment) :
    (fragment.prune keep).condition = fragment.condition :=
  rfl

@[simp] theorem Fragment.selections_prune (fragment : Fragment) :
    (fragment.prune keep).selections = pruneSelections keep fragment.selections :=
  rfl

@[simp] theorem prunePicks_nil : prunePicks keep [] = [] :=
  rfl

/-- Whether a field selection is kept is decided at that selection. -/
theorem prunePicks_cons (pick : Pick) (rest : List Pick) : prunePicks keep (pick :: rest)
    = if pick.isKept keep then pick.prune keep :: prunePicks keep rest
      else prunePicks keep rest := by
  rw [prunePicks, List.filter_cons]
  split <;> rfl

/-- Nothing is left of field selections none of which is kept. -/
theorem prunePicks_eq_nil {found : List Pick} (h : found.filter (·.isKept keep) = []) :
    prunePicks keep found = [] := by
  rw [prunePicks, h, List.map_nil]

/-- Pruning the field selections of a list of lists is pruning each of the lists. -/
theorem prunePicks_flatMap {β : Type} (items : List β) (f : β → List Pick) :
    prunePicks keep (items.flatMap f) = items.flatMap fun item => prunePicks keep (f item) := by
  rw [prunePicks, List.filter_flatMap, List.map_flatMap]
  rfl

/-- A field selection of a pruned list is what is left of one that is kept. -/
theorem mem_prunePicks {found : List Pick} {pick : Pick} :
    pick ∈ prunePicks keep found
      ↔ ∃ whole ∈ found, whole.isKept keep ∧ whole.prune keep = pick := by
  simp only [prunePicks, List.mem_map, List.mem_filter, and_assoc]

/-- Pruning leaves keys as they are. -/
theorem filter_key_prunePicks (found : List Pick) (key : String) :
    (prunePicks keep found).filter (·.key == key)
      = prunePicks keep (found.filter (·.key == key)) := by
  rw [prunePicks, prunePicks, List.filter_map, List.filter_comm]
  rfl

/-- A pruned list has the keys of the field selections that are kept. -/
theorem mem_keys_prunePicks {found : List Pick} {key : String} :
    key ∈ (prunePicks keep found).map Pick.key
      ↔ ∃ pick ∈ found, pick.isKept keep ∧ pick.key = key := by
  simp only [List.mem_map, mem_prunePicks]
  constructor
  · rintro ⟨_, ⟨pick, hp, hkept, rfl⟩, hkey⟩
    exact ⟨pick, hp, hkept, hkey⟩
  · rintro ⟨pick, hp, hkept, hkey⟩
    exact ⟨_, ⟨pick, hp, hkept, rfl⟩, hkey⟩

variable {D : Type} {context : MergeContext D}

@[simp] theorem MergeContext.schema_prune : (context.prune keep).schema = context.schema :=
  rfl

@[simp] theorem MergeContext.fragment?_prune (name : String) :
    (context.prune keep).fragment? name = (context.fragment? name).map (Fragment.prune keep) :=
  rfl

/-- What is picked of a pruned selection set is what is kept of the picks. -/
theorem MergeContext.picks_prune (context : MergeContext D) (depth : Nat) (concrete : String)
    (selections : List Selection) {guards : List Guard}
    (h : guards.all fun guard => keep guard.directives) :
    (context.prune keep).picks depth concrete (pruneSelections keep selections) guards
      = prunePicks keep (context.picks depth concrete selections guards) := by
  induction depth generalizing selections guards with
  | zero => rfl
  | succ depth ih =>
    -- Of a fragment that is left out nothing is kept.
    have hdeeper : ∀ guard inner,
        prunePicks keep (context.picks depth concrete inner (guards ++ [guard]))
          = if keep guard.directives then (context.prune keep).picks depth concrete
              (pruneSelections keep inner) (guards ++ [guard]) else [] := by
      intro guard inner
      split
      · rename_i hguard
        exact (ih inner (by simp [h, hguard])).symm
      · rename_i hguard
        exact prunePicks_eq_nil (filter_isKept_eq_nil (by simp [hguard]))
    rw [picks, picks, pruneSelections_eq_flatMap, List.flatMap_assoc, prunePicks_flatMap,
      List.flatMap_def, List.flatMap_def]
    refine congrArg List.flatten (List.map_congr_left ?_)
    intro selection _
    cases selection with
    | field field inner =>
      have hkept : Pick.isKept keep ⟨field, inner, guards⟩ = keep field.directives := by
        rw [Pick.isKept, h, Bool.and_true]
      simp only [Selection.prune?, picksOne, prunePicks_cons, prunePicks_nil, hkept]
      split <;> rfl
    | inlineFragment fragment inner =>
      have hinner := hdeeper (.inlineFragment fragment) inner
      by_cases hcondition : fragment.condition?.all (context.schema.satisfies concrete) <;>
        cases hkeep : keep fragment.directives <;>
        simp [Selection.prune?, picksOne, Guard.directives, hcondition, hkeep, hinner]
    | fragmentSpread spread =>
      cases hfragment : context.fragment? spread.fragment with
      | none => cases hkeep : keep spread.directives <;>
          simp [Selection.prune?, picksOne, hkeep, hfragment]
      | some fragment =>
        have hinner := hdeeper (.fragmentSpread spread) fragment.selections
        by_cases hcondition : context.schema.satisfies concrete fragment.condition <;>
          cases hkeep : keep spread.directives <;>
          simp [Selection.prune?, picksOne, Guard.directives, hfragment, hcondition, hkeep, hinner]

/-- A field selection is kept if what its sub-selection is reached through is kept. -/
theorem Pick.isKept_eq (pick : Pick) :
    pick.isKept keep
      = (pick.guards ++ [Guard.field pick.field]).all fun guard => keep guard.directives := by
  rw [isKept, List.all_append, Bool.and_comm, List.all_cons, List.all_nil, Bool.and_true]
  rfl

/-- What is picked below picks that are kept is what is kept of the picks below them all. -/
theorem MergeContext.below_prune (depth : Nat) (found : List Pick) (concrete : String) :
    (context.prune keep).below depth (prunePicks keep found) concrete
      = prunePicks keep (context.below depth found concrete) := by
  rw [below, below, prunePicks_flatMap]
  induction found with
  | nil => rfl
  | cons pick rest ih =>
    rw [List.flatMap_cons, ← ih, prunePicks_cons]
    cases hkept : pick.isKept keep with
    | true =>
      have hpicks := context.picks_prune depth concrete pick.selections (pick.isKept_eq ▸ hkept)
      rw [if_pos rfl, List.flatMap_cons]
      congr 1
      by_cases hconcrete : concrete ∈ context.schema.possibleTypes pick.field.type.inner <;>
        simp [Pick.prune, hconcrete, hpicks]
    | false =>
      have hpicks : prunePicks keep (context.picks depth concrete pick.selections
          (pick.guards ++ [.field pick.field])) = [] :=
        prunePicks_eq_nil (filter_isKept_eq_nil (pick.isKept_eq ▸ hkept))
      rw [if_neg Bool.false_ne_true]
      split
      · rw [hpicks]
        rfl
      · rfl

/-! ## Limits -/

/-- Where something is left after pruning, something was selected. -/
theorem pruneSelections_ne_nil {selections : List Selection}
    (h : pruneSelections keep selections ≠ []) : selections ≠ [] := by
  rintro rfl
  exact h rfl

/-- A pruned selection set opens none but pruned ones that the whole one opens. -/
theorem MergeContext.Opens.of_prune {scope inner : Scope}
    (h : MergeContext.Opens (context.prune keep) (scope.prune keep) inner) :
    ∃ whole, context.Opens scope whole ∧ inner = whole.prune keep := by
  cases h with
  | field mem types some =>
    obtain ⟨_, hm, hp⟩ := mem_pruneSelections.1 mem
    obtain ⟨all, rfl, rfl⟩ := Selection.prune?_eq_some hp
    exact ⟨_, .field hm types (pruneSelections_ne_nil some), rfl⟩
  | inlineFragment mem =>
    obtain ⟨_, hm, hp⟩ := mem_pruneSelections.1 mem
    obtain ⟨all, rfl, rfl⟩ := Selection.prune?_eq_some hp
    exact ⟨_, .inlineFragment hm, rfl⟩
  | fragmentSpread mem found =>
    obtain ⟨_, hm, hp⟩ := mem_pruneSelections.1 mem
    cases Selection.prune?_eq_some hp
    obtain ⟨fragment, hfragment, rfl⟩ := Option.map_eq_some_iff.1 found
    exact ⟨_, .fragmentSpread hm hfragment, rfl⟩

/-- A pruned selection set does not nest deeper. -/
theorem MergeContext.exceeds_prune {depth : Nat} (scope : Scope)
    (h : (context.prune keep).exceeds depth (scope.prune keep).selections scope.types) :
    context.exceeds depth scope.selections scope.types := by
  induction depth generalizing scope with
  | zero => rfl
  | succ depth ih =>
    obtain ⟨inner, hopens, hinner⟩ := exceeds_succ_iff.1 h
    obtain ⟨whole, hwhole, rfl⟩ := hopens.of_prune
    exact exceeds_succ_iff.2 ⟨whole, hwhole, ih whole hinner⟩

/-- A pruned operation has a tree if the operation has one. -/
theorem SelectionTree.exists_ofOperation_prune (keep : List Directive → Bool) {limit : Nat}
    {operation : Operation} {rootType : String} {tree : SelectionTree D}
    (h : ofOperation context limit operation rootType = .ok tree) :
    ∃ pruned, ofOperation (context.prune keep) limit (operation.prune keep) rootType
      = .ok pruned := by
  have hfails := fails_ofOperation context limit operation rootType
  have hpruned := fails_ofOperation (context.prune keep) limit (operation.prune keep) rootType
  cases hexceeds : (context.prune keep).exceeds (limit + 1) (operation.prune keep).selections
      [rootType] with
  | false => rwa [hexceeds] at hpruned
  | true =>
    rw [MergeContext.exceeds_prune ⟨operation.selections, [rootType]⟩ hexceeds] at hfails
    cases h.symm.trans hfails

end

end QueryEngine
