import QueryEngine.Proofs.Selection.Chains

/-!
# Fields that may meet

In a valid document two fields of a selection set that have one response key have one name, unless
they are selected on two object types, so that no object is asked for both; and their sub-selections
taken together keep this rule in turn (`FieldsMerge`). The rule looks at selection sets and their
fragments and not at the objects that there are. For the field selections that meet in the bucket of
a concrete type it says that those with one key have one name (`MeetWell`), at the root and, level
by level, below it.
-/

namespace QueryEngine

/-! ## The rule -/

/-- The field with that sub-selection is one of the selection set, or of a fragment in it, whatever
types the fragments are for. -/
inductive SelectsField (fragment? : String → Option Fragment) :
    List Selection → Field → List Selection → Prop
  | field {selections inner : List Selection} {field : Field}
    (h : .field field inner ∈ selections) : SelectsField fragment? selections field inner
  | inlineFragment {selections nested inner : List Selection} {field : Field}
    {fragment : InlineFragment} (h : .inlineFragment fragment nested ∈ selections)
    (below : SelectsField fragment? nested field inner) :
    SelectsField fragment? selections field inner
  | fragmentSpread {selections inner : List Selection} {field : Field} {spread : FragmentSpread}
    {fragment : Fragment} (h : .fragmentSpread spread ∈ selections)
    (found : fragment? spread.fragment = some fragment)
    (below : SelectsField fragment? fragment.selections field inner) :
    SelectsField fragment? selections field inner

/-- Object types are one type; two other types may stand for the same object. -/
def Schema.Overlap (schema : Schema) (type other : String) : Prop :=
  schema.names TypeBody.isObject type → schema.names TypeBody.isObject other → type = other

/-- Where two fields of the selection set have one key and are selected on types that may stand for
the same object, they have one name, and their sub-selections together keep the rule. -/
inductive FieldsMerge (schema : Schema) (fragment? : String → Option Fragment) :
    List Selection → Prop
  | intro {selections : List Selection}
    (name : ∀ {field other inner inner'}, SelectsField fragment? selections field inner →
      SelectsField fragment? selections other inner' → field.key = other.key →
        schema.Overlap field.owner other.owner → field.name = other.name)
    (below : ∀ {field other inner inner'}, SelectsField fragment? selections field inner →
      SelectsField fragment? selections other inner' → field.key = other.key →
        schema.Overlap field.owner other.owner → FieldsMerge schema fragment? (inner ++ inner')) :
    FieldsMerge schema fragment? selections

/-- The operations of the document keep the rule. -/
def Document.FieldsMerge (schema : Schema) (document : Document) : Prop :=
  ∀ operation ∈ document.operations,
    QueryEngine.FieldsMerge schema document.fragment? operation.selections

section
variable {fragment? : String → Option Fragment} {selections more inner : List Selection}
  {field : Field}

/-- More selections select more fields. -/
theorem SelectsField.mono (h : SelectsField fragment? selections field inner)
    (hs : selections ⊆ more) : SelectsField fragment? more field inner := by
  cases h with
  | field h => exact .field (hs h)
  | inlineFragment h below => exact .inlineFragment (hs h) below
  | fragmentSpread h found below => exact .fragmentSpread (hs h) found below

/-- Two fields of one key on types that overlap have one name, and their sub-selections together
keep the rule again. -/
theorem FieldsMerge.of_selects {schema : Schema} {other : Field} {inner' : List Selection}
    (h : FieldsMerge schema fragment? selections)
    (hs : SelectsField fragment? selections field inner)
    (hs' : SelectsField fragment? selections other inner') (hkey : field.key = other.key)
    (ho : schema.Overlap field.owner other.owner) :
    field.name = other.name ∧ FieldsMerge schema fragment? (inner ++ inner') := by
  cases h with
  | intro name below => exact ⟨name hs hs' hkey ho, below hs hs' hkey ho⟩

/-! ## Checking the rule -/

/-- The fields that are selected in a selection set and its fragments, down to a depth of
fragments. -/
def selectedFields (fragment? : String → Option Fragment) :
    Nat → List Selection → List (Field × List Selection)
  | 0, _ => []
  | depth + 1, selections =>
    selections.flatMap fun
      | .field field inner => [(field, inner)]
      | .inlineFragment _ inner => selectedFields fragment? depth inner
      | .fragmentSpread spread =>
        ((fragment? spread.fragment).map fun fragment =>
          selectedFields fragment? depth fragment.selections).getD []

/-- Whether selections keep the rule that nest within the depth. -/
def mergesWithin (schema : Schema) (fragment? : String → Option Fragment) :
    Nat → List Selection → Bool
  | 0, selections => selections.isEmpty
  | depth + 1, selections =>
    let found := selectedFields fragment? (depth + 1) selections
    nestsWithin fragment? (depth + 1) selections && found.all fun (field, inner) =>
      found.all fun (other, inner') =>
        field.key != other.key
          || (schema.names TypeBody.isObject field.owner
            && schema.names TypeBody.isObject other.owner && field.owner != other.owner)
          || field.name == other.name && mergesWithin schema fragment? depth (inner ++ inner')

/-- All fields are found of selections that nest within the depth. -/
theorem SelectsField.mem_selectedFields (h : SelectsField fragment? selections field inner)
    {depth : Nat} (hn : nestsWithin fragment? depth selections) :
    (field, inner) ∈ selectedFields fragment? depth selections := by
  induction h generalizing depth with
  | field h =>
    cases depth with
    | zero => cases hn
    | succ depth => exact List.mem_flatMap.2 ⟨_, h, List.mem_singleton_self _⟩
  | inlineFragment h _ ih =>
    cases depth with
    | zero => cases hn
    | succ depth => exact List.mem_flatMap.2 ⟨_, h, ih (List.all_eq_true.1 hn _ h)⟩
  | fragmentSpread h found _ ih =>
    cases depth with
    | zero => cases hn
    | succ depth =>
      have hnested := List.all_eq_true.1 hn _ h
      simp only [found, Option.all_some] at hnested
      refine List.mem_flatMap.2 ⟨_, h, ?_⟩
      simp only [found, Option.map_some, Option.getD_some]
      exact ih hnested

/-- Selections that pass the check keep the rule. -/
theorem fieldsMerge_of_mergesWithin {schema : Schema} {depth : Nat}
    (h : mergesWithin schema fragment? depth selections) :
    FieldsMerge schema fragment? selections := by
  induction depth generalizing selections with
  | zero =>
    obtain rfl := List.isEmpty_iff.1 h
    exact .intro (fun hs => nomatch hs) fun hs => nomatch hs
  | succ depth ih =>
    simp only [mergesWithin, Bool.and_eq_true, List.all_eq_true] at h
    have hpair : ∀ {field other inner inner'}, SelectsField fragment? selections field inner →
        SelectsField fragment? selections other inner' → field.key = other.key →
          schema.Overlap field.owner other.owner →
            field.name = other.name ∧ mergesWithin schema fragment? depth (inner ++ inner') := by
      intro field other inner inner' hs hs' hkey hoverlap
      have hcheck := h.2 _ (hs.mem_selectedFields h.1) _ (hs'.mem_selectedFields h.1)
      simp only [Bool.or_eq_true, Bool.and_eq_true, bne_iff_ne, beq_iff_eq] at hcheck
      rcases hcheck with (hne | ⟨⟨ho, ho'⟩, hne⟩) | hsame
      · exact absurd hkey hne
      · exact absurd (hoverlap ho ho') hne
      · exact hsame
    exact .intro (fun hs hs' hkey ho => (hpair hs hs' hkey ho).1)
      fun hs hs' hkey ho => ih (hpair hs hs' hkey ho).2

/-- A document keeps the rule if its operations pass the check. -/
theorem Document.fieldsMerge_of_mergesWithin {schema : Schema} {document : Document} (depth : Nat)
    (h : document.operations.all fun operation =>
      mergesWithin schema document.fragment? depth operation.selections) :
    document.FieldsMerge schema :=
  fun operation hm => QueryEngine.fieldsMerge_of_mergesWithin (List.all_eq_true.1 h operation hm)

end

/-! ## Field selections that meet -/

variable {D : Type} {context : MergeContext D} {depth : Nat}

/-- What is picked of a selection set is selected in it. -/
theorem selectsField_of_mem_picks {concrete : String} {selections : List Selection}
    {guards : List Guard} {pick : Pick}
    (h : pick ∈ context.picks depth concrete selections guards) :
    SelectsField context.fragment? selections pick.field pick.selections := by
  obtain ⟨around, hinto, hm⟩ : ∃ around : List Selection,
      (∀ field inner, SelectsField context.fragment? around field inner →
        SelectsField context.fragment? selections field inner)
      ∧ .field pick.field pick.selections ∈ around :=
    exists_mem_of_mem_picks
      (fun hinto hm _ field inner hs => hinto field inner (.inlineFragment hm hs))
      (fun hinto hm hf _ field inner hs => hinto field inner (.fragmentSpread hm hf hs))
      (fun _ _ hs => hs) h
  exact hinto _ _ (.field hm)

/-- Field selections that apply to a concrete type. Those with one key have one name, and their
sub-selections together keep the rule on merging fields. -/
structure MeetWell (context : MergeContext D) (concrete : String) (found : List Pick) : Prop where
  fits : ∀ pick ∈ found, pick.Fits context.schema concrete
  merge : ∀ pick ∈ found, ∀ other ∈ found, pick.key = other.key →
    pick.field.name = other.field.name
      ∧ FieldsMerge context.schema context.fragment? (pick.selections ++ other.selections)

/-- What applies to one concrete type was selected on types that overlap. -/
theorem overlap_of_fits {concrete : String} {pick other : Pick}
    (hp : pick.Fits context.schema concrete) (ho : other.Fits context.schema concrete) :
    context.schema.Overlap pick.field.owner other.field.owner :=
  fun hobject hobject' => (Schema.eq_of_satisfies hobject hp.satisfied).symm.trans
    (Schema.eq_of_satisfies hobject' ho.satisfied)

/-- What is picked of selections that keep the rule meets well. -/
theorem meetWell_picks (hf : context.FragmentsFit) {concrete owner : String}
    (hc : context.schema.satisfies concrete owner) {selections : List Selection}
    (hs : ∀ selection ∈ selections, selection.Fits context.schema owner)
    (hm : FieldsMerge context.schema context.fragment? selections) (guards : List Guard) :
    MeetWell context concrete (context.picks depth concrete selections guards) where
  fits _ hp := fits_of_mem_picks hf hc hs hp
  merge _ hp _ ho hkey := hm.of_selects (selectsField_of_mem_picks hp)
    (selectsField_of_mem_picks ho) hkey
    (overlap_of_fits (fits_of_mem_picks hf hc hs hp) (fits_of_mem_picks hf hc hs ho))

/-- What is picked below a key meets well if the field selections with the key do. -/
theorem MeetWell.below (hf : context.FragmentsFit) {concrete : String} {found : List Pick}
    (h : MeetWell context concrete found) (key type : String) :
    MeetWell context type (context.below depth (found.filter (·.key == key)) type) := by
  have hfits : ∀ pick ∈ context.below depth (found.filter (·.key == key)) type,
      pick.Fits context.schema type := fun _ hp =>
    fits_of_mem_below hf (fun outer ho => h.fits outer (List.mem_of_mem_filter ho)) hp
  have houter : ∀ pick ∈ context.below depth (found.filter (·.key == key)) type,
      ∃ outer ∈ found, outer.key = key
        ∧ SelectsField context.fragment? outer.selections pick.field pick.selections := by
    intro pick hp
    obtain ⟨outer, ho, hp⟩ := List.mem_flatMap.1 hp
    obtain ⟨ho, hkey⟩ := List.mem_filter.1 ho
    split at hp
    · exact ⟨outer, ho, eq_of_beq hkey, selectsField_of_mem_picks hp⟩
    · cases hp
  refine ⟨hfits, fun pick hp other ho hkey => ?_⟩
  -- The two were selected in the sub-selections of two field selections with the key.
  obtain ⟨outer, hm, houterkey, hs⟩ := houter pick hp
  obtain ⟨outer', hm', houterkey', hs'⟩ := houter other ho
  have hmerge := (h.merge outer hm outer' hm' (houterkey.trans houterkey'.symm)).2
  exact hmerge.of_selects (hs.mono (List.subset_append_left _ _))
    (hs'.mono (List.subset_append_right _ _)) hkey
    (overlap_of_fits (hfits pick hp) (hfits other ho))

end QueryEngine
