import QueryEngine.Proofs.Schema.Subtypes
import QueryEngine.Proofs.Selection.Picks

/-!
# Collecting fields

The algorithm by which the fields of an object are found while an operation is executed:
`collectFields` leaves out what its directives leave out, enters a fragment if the object satisfies
the type condition, and knows the object's type. The picks of a selection set that are included are
what it collects (`map_filter_picks`). In a document that fits its schema every field that it
collects for a type is a field of a type that this one stands for (`fits_of_mem_picks`).
-/

namespace QueryEngine

/-- The fields of a selection set that apply to an object type, each with its sub-selection, down to
a depth of fragments. `keep` says of directives whether they leave a selection in. -/
def collectFields (schema : Schema) (fragment? : String → Option Fragment)
    (keep : List Directive → Bool) : Nat → String → List Selection → List (Field × List Selection)
  | 0, _, _ => []
  | depth + 1, concrete, selections =>
    selections.flatMap fun
      | .field field inner => if keep field.directives then [(field, inner)] else []
      | .inlineFragment fragment inner =>
        if keep fragment.directives && fragment.condition?.all (schema.satisfies concrete) then
          collectFields schema fragment? keep depth concrete inner
        else []
      | .fragmentSpread spread =>
        match fragment? spread.fragment with
        | none => []
        | some fragment =>
          if keep spread.directives && schema.satisfies concrete fragment.condition then
            collectFields schema fragment? keep depth concrete fragment.selections
          else []

/-- The fields of several selection sets are those of each of them. -/
theorem collectFields_flatMap {α : Type} (schema : Schema)
    (fragment? : String → Option Fragment) (keep : List Directive → Bool) (depth : Nat)
    (concrete : String) (items : List α) (f : α → List Selection) :
    collectFields schema fragment? keep depth concrete (items.flatMap f)
      = items.flatMap fun item => collectFields schema fragment? keep depth concrete (f item) := by
  cases depth with
  | zero => simp [collectFields]
  | succ depth => simp only [collectFields, List.flatMap_assoc]

/-! ## Picks -/

/-- Whether nothing that the field selection was reached through is left out, nor itself. -/
def Pick.isKept (keep : List Directive → Bool) (pick : Pick) : Bool :=
  keep pick.field.directives && pick.guards.all fun guard => keep guard.directives

/-- A field selection with its sub-selection. -/
def Pick.found (pick : Pick) : Field × List Selection := (pick.field, pick.selections)

section
variable {D : Type} {context : MergeContext D}

/-- A pick is a member of the selection set or of a fragment that is entered for the concrete type.
What holds of the selection set and goes over to such fragments holds of the one around it. -/
theorem exists_mem_of_mem_picks {concrete : String} {I : List Selection → Prop}
    (inlineFragment : ∀ {selections fragment inner}, I selections →
      .inlineFragment fragment inner ∈ selections →
      fragment.condition?.all (context.schema.satisfies concrete) → I inner)
    (fragmentSpread : ∀ {selections spread fragment}, I selections →
      .fragmentSpread spread ∈ selections → context.fragment? spread.fragment = some fragment →
      context.schema.satisfies concrete fragment.condition → I fragment.selections)
    {depth : Nat} {selections : List Selection} (hs : I selections) {guards : List Guard}
    {pick : Pick} (h : pick ∈ context.picks depth concrete selections guards) :
    ∃ around, I around ∧ .field pick.field pick.selections ∈ around := by
  induction depth generalizing selections guards with
  | zero => cases h
  | succ depth ih =>
    obtain ⟨selection, hm, h⟩ := List.mem_flatMap.1 h
    cases selection with
    | field field inner =>
      obtain rfl := List.mem_singleton.1 h
      exact ⟨selections, hs, hm⟩
    | inlineFragment fragment inner =>
      simp only [MergeContext.picksOne] at h
      split at h
      · exact ih (inlineFragment hs hm ‹_›) h
      · cases h
    | fragmentSpread spread =>
      simp only [MergeContext.picksOne] at h
      split at h
      · cases h
      · split at h
        · exact ih (fragmentSpread hs hm ‹_› ‹_›) h
        · cases h

/-- The picks of a selection set were reached through what the set was reached through. -/
theorem guards_of_mem_picks {depth : Nat} {concrete : String} {selections : List Selection}
    {guards : List Guard} {pick : Pick}
    (h : pick ∈ context.picks depth concrete selections guards) : guards <+: pick.guards := by
  induction depth generalizing selections guards with
  | zero => cases h
  | succ depth ih =>
    obtain ⟨selection, -, h⟩ := List.mem_flatMap.1 h
    cases selection with
    | field field inner =>
      obtain rfl := List.mem_singleton.1 h
      exact List.prefix_refl _
    | inlineFragment fragment inner =>
      simp only [MergeContext.picksOne] at h
      split at h
      · exact (List.prefix_append ..).trans (ih h)
      · cases h
    | fragmentSpread spread =>
      simp only [MergeContext.picksOne] at h
      split at h
      · cases h
      · split at h
        · exact (List.prefix_append ..).trans (ih h)
        · cases h

/-- Nothing is kept of what was reached through something that is left out. -/
theorem filter_isKept_eq_nil {keep : List Directive → Bool} {depth : Nat} {concrete : String}
    {selections : List Selection} {guards : List Guard}
    (h : guards.all (fun guard => keep guard.directives) = false) :
    (context.picks depth concrete selections guards).filter (·.isKept keep) = [] := by
  refine List.filter_eq_nil_iff.2 ?_
  intro pick hp hk
  rw [Pick.isKept, Bool.and_eq_true] at hk
  obtain ⟨rest, hr⟩ := guards_of_mem_picks hp
  rw [← hr, List.all_append, h] at hk
  cases hk.2

/-- The picks that are kept are the collected fields. -/
theorem map_filter_picks (keep : List Directive → Bool) (depth : Nat) (concrete : String)
    (selections : List Selection) {guards : List Guard}
    (h : guards.all (fun guard => keep guard.directives)) :
    ((context.picks depth concrete selections guards).filter (·.isKept keep)).map Pick.found
      = collectFields context.schema context.fragment? keep depth concrete selections := by
  induction depth generalizing selections guards with
  | zero => rfl
  | succ depth ih =>
    -- Entering a fragment adds it to what the picks were reached through.
    have hdeeper : ∀ guard inner, ((context.picks depth concrete inner (guards ++ [guard])).filter
        (·.isKept keep)).map Pick.found = if keep guard.directives then
          collectFields context.schema context.fragment? keep depth concrete inner else [] := by
      intro guard inner
      split
      · rename_i hguard
        exact ih inner (by simp [h, hguard])
      · rename_i hguard
        rw [filter_isKept_eq_nil (by simp [hguard])]
        rfl
    rw [MergeContext.picks, collectFields, List.filter_flatMap, List.map_flatMap,
      List.flatMap_def, List.flatMap_def]
    refine congrArg List.flatten (List.map_congr_left ?_)
    intro selection _
    cases selection with
    | field field inner =>
      have hkept : Pick.isKept keep ⟨field, inner, guards⟩ = keep field.directives := by
        rw [Pick.isKept, h, Bool.and_true]
      simp only [MergeContext.picksOne, List.filter_cons, List.filter_nil, hkept]
      split <;> rfl
    | inlineFragment fragment inner =>
      simp only [MergeContext.picksOne]
      split
      · rename_i hcondition
        rw [hdeeper, hcondition, Bool.and_true]
        rfl
      · rename_i hcondition
        simp [hcondition]
    | fragmentSpread spread =>
      simp only [MergeContext.picksOne]
      cases context.fragment? spread.fragment with
      | none => rfl
      | some fragment =>
        dsimp only
        split
        · rename_i hcondition
          rw [hdeeper, hcondition, Bool.and_true]
          rfl
        · rename_i hcondition
          simp [hcondition]

end

/-! ## Fitting a schema -/

/-- The selection says of every field on which type it is selected, and of which type it is there.
The surrounding selection set is on the type `owner`. -/
inductive Selection.Fits (schema : Schema) : String → Selection → Prop
  | field {owner : String} {field : Field} {inner : List Selection} {definition : FieldDef}
    (owned : field.owner = owner)
    (defined : schema.field? owner field.name = some definition)
    (typed : definition.type = field.type)
    (below : ∀ selection ∈ inner, Fits schema field.type.inner selection) :
    Fits schema owner (.field field inner)
  | inlineFragment {owner : String} {fragment : InlineFragment} {inner : List Selection}
    (below : ∀ selection ∈ inner, Fits schema (fragment.condition?.getD owner) selection) :
    Fits schema owner (.inlineFragment fragment inner)
  | fragmentSpread {owner : String} {spread : FragmentSpread} :
    Fits schema owner (.fragmentSpread spread)

/-- The selections of the document are made on the types of the schema. -/
structure Document.Fits (schema : Schema) (document : Document) : Prop where
  operations : ∀ operation ∈ document.operations, ∃ root,
    schema.root? operation.kind = some root
      ∧ ∀ selection ∈ operation.selections, selection.Fits schema root
  fragments : ∀ fragment ∈ document.fragments,
    ∀ selection ∈ fragment.selections, selection.Fits schema fragment.condition

/-- The fragments that merging finds fit the schema. -/
def MergeContext.FragmentsFit {D : Type} (context : MergeContext D) : Prop :=
  ∀ name fragment, context.fragment? name = some fragment →
    ∀ selection ∈ fragment.selections, selection.Fits context.schema fragment.condition

/-- A document that fits the schema has fragments that do. -/
theorem Document.Fits.fragmentsFit {W O C T : Type} {registry : Registry W O C T}
    {document : Document} (h : document.Fits registry.schema) :
    (registry.mergeContext document).FragmentsFit :=
  fun _ fragment hf => h.fragments fragment (List.mem_of_find?_eq_some hf)

/-- The field is selected on a type that the concrete one stands for, and has a type there. -/
structure Pick.Fits (schema : Schema) (concrete : String) (pick : Pick) : Prop where
  satisfied : schema.satisfies concrete pick.field.owner
  defined : ∃ definition, schema.field? pick.field.owner pick.field.name = some definition
    ∧ definition.type = pick.field.type
  below : ∀ selection ∈ pick.selections, selection.Fits schema pick.field.type.inner

section
variable {D : Type} {context : MergeContext D}

/-- The picks of a selection set that fits the schema do so, too. -/
theorem fits_of_mem_picks
    (hf : context.FragmentsFit)
    {depth : Nat} {concrete owner : String} (hc : context.schema.satisfies concrete owner)
    {selections : List Selection}
    (hs : ∀ selection ∈ selections, selection.Fits context.schema owner)
    {guards : List Guard} {pick : Pick}
    (h : pick ∈ context.picks depth concrete selections guards) :
    pick.Fits context.schema concrete := by
  obtain ⟨around, ⟨owner, hc, hs⟩, hm⟩ : ∃ around : List Selection,
      (∃ owner, context.schema.satisfies concrete owner
        ∧ ∀ selection ∈ around, selection.Fits context.schema owner)
      ∧ .field pick.field pick.selections ∈ around := by
    refine exists_mem_of_mem_picks ?_ ?_ ⟨owner, hc, hs⟩ h
    · rintro selections fragment inner ⟨owner, hc, hs⟩ hm hcondition
      cases hs _ hm with
      | inlineFragment below =>
        refine ⟨_, ?_, below⟩
        cases hf : fragment.condition? with
        | none => exact hc
        | some condition => simpa [hf] using hcondition
    · exact fun _ _ hfragment hcondition => ⟨_, hcondition, hf _ _ hfragment⟩
  cases hs _ hm with
  | field owned defined typed below =>
    subst owned
    exact ⟨hc, ⟨_, defined, typed⟩, below⟩

end

end QueryEngine
