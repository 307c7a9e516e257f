import QueryEngine.Proofs.Json.Permuted
import QueryEngine.Proofs.Language.Substitution
import QueryEngine.Proofs.Schema.Arguments

/-!
# Literals up to the order of keys

Two selections of a field have the same arguments if they give the same literals for them, in
whatever order, and the fields of an object literal may be in another order, too
(`Literal.Permuted`). Such literals have the same values up to the order of keys
(`Literal.Permuted.rel_toJson?`), so a descriptor makes the same arguments of them
(`Descriptor.sameArguments_coerceArguments`).
-/

namespace QueryEngine

/-- The literals are the same up to the order of the fields of object literals. -/
inductive Literal.Permuted : Literal → Literal → Prop
  | refl (literal : Literal) : Permuted literal literal
  | list {items items' : List Literal} (h : List.Forall₂ Permuted items items') :
    Permuted (.list items) (.list items')
  | object {fields middle fields' : List (String × Literal)}
    (distinct : (fields.map Prod.fst).Nodup) (keys : fields.map Prod.fst = middle.map Prod.fst)
    (values : List.Forall₂ Permuted (fields.map Prod.snd) (middle.map Prod.snd))
    (order : middle.Perm fields') : Permuted (.object fields) (.object fields')

/-- The same arguments have values that are the same up to the order of keys. -/
def SameArguments (arguments arguments' : Fields) : Prop :=
  ∀ name, Option.Rel Json.Permuted (arguments.lookup name) (arguments'.lookup name)

/-- Every argument map lists the same arguments as itself. -/
theorem SameArguments.refl (arguments : Fields) : SameArguments arguments arguments := by
  intro name
  cases arguments.lookup name with
  | none => exact .none
  | some value => exact .some (.refl value)

namespace Literal

variable (vars : Fields)

/-- The values of fields, as a filter. -/
theorem fieldsToJson_eq_filterMap (fields : List (String × Literal)) :
    fieldsToJson vars fields
      = fields.filterMap fun field => (field.2.toJson? vars).map (field.1, ·) := by
  induction fields with
  | nil => rfl
  | cons field rest ih =>
    obtain ⟨name, literal⟩ := field
    rw [fieldsToJson, List.filterMap_cons, ih]
    cases literal.toJson? vars <;> rfl

/-- Reading the fields of an object literal drops absent variables and keeps the rest in order. -/
theorem keys_fieldsToJson_sublist (fields : List (String × Literal)) :
    ((fieldsToJson vars fields).map Prod.fst).Sublist (fields.map Prod.fst) := by
  have h := Entries.keys_mapValues?_sublist (toJson? vars) fields
  rw [fieldsToJson_eq_filterMap]
  exact h

/-- An object literal with distinct keys is read as an object with distinct keys. -/
theorem nodup_fieldsToJson {fields : List (String × Literal)} (h : (fields.map Prod.fst).Nodup) :
    ((fieldsToJson vars fields).map Prod.fst).Nodup :=
  h.sublist (keys_fieldsToJson_sublist vars fields)

/-- Reordering the fields of an object literal reorders the fields it is read as. -/
theorem fieldsToJson_perm {fields fields' : List (String × Literal)} (h : fields.Perm fields') :
    (fieldsToJson vars fields).Perm (fieldsToJson vars fields') := by
  rw [fieldsToJson_eq_filterMap, fieldsToJson_eq_filterMap]
  exact h.filterMap _

mutual

/-- Literals that are the same up to the order of keys have such values. -/
theorem Permuted.rel_toJson? : ∀ {literal literal' : Literal}, literal.Permuted literal' →
    Option.Rel Json.Permuted (literal.toJson? vars) (literal'.toJson? vars)
  | literal, _, .refl _ => by
    cases literal.toJson? vars with
    | none => exact .none
    | some value => exact .some (.refl value)
  | .list items, _, .list h => by
    rw [toJson?, toJson?]
    exact .some (.array (forall₂_itemsToJson h))
  | .object fields, _, .object distinct keys values order => by
    obtain ⟨hkeys, hvalues⟩ := forall₂_fieldsToJson keys values
    have hdistinct := nodup_fieldsToJson vars distinct
    have hordered := nodup_fieldsToJson vars ((order.map Prod.fst).nodup_iff.1 (keys ▸ distinct))
    rw [toJson?, toJson?, Entries.ofList_of_nodup hdistinct, Entries.ofList_of_nodup hordered]
    exact .some (.object hdistinct hkeys hvalues (fieldsToJson_perm vars order))

/-- Literals that agree up to the order of object keys are read as values that do, item by item. -/
theorem forall₂_itemsToJson : ∀ {items items' : List Literal},
    List.Forall₂ Permuted items items' →
      List.Forall₂ Json.Permuted (itemsToJson vars items) (itemsToJson vars items')
  | [], _, .nil => .nil
  | item :: rest, item' :: rest', .cons hfirst hrest => by
    rw [itemsToJson, itemsToJson]
    refine .cons ?_ (forall₂_itemsToJson hrest)
    have hvalue := hfirst.rel_toJson?
    generalize item.toJson? vars = value, item'.toJson? vars = value' at hvalue
    cases hvalue with
    | none => exact .refl _
    | some h => exact h

/-- Two lists of fields whose literals agree position by position are read as the same keys with
values that agree up to the order of object keys. -/
theorem forall₂_fieldsToJson : ∀ {fields middle : List (String × Literal)},
    fields.map Prod.fst = middle.map Prod.fst →
    List.Forall₂ Permuted (fields.map Prod.snd) (middle.map Prod.snd) →
      (fieldsToJson vars fields).map Prod.fst = (fieldsToJson vars middle).map Prod.fst
        ∧ List.Forall₂ Json.Permuted ((fieldsToJson vars fields).map Prod.snd)
          ((fieldsToJson vars middle).map Prod.snd)
  | [], [], _, _ => ⟨rfl, .nil⟩
  | (name, literal) :: rest, (name', literal') :: rest', keys, .cons hfirst hrest => by
    obtain ⟨hname, hnames⟩ := List.cons.inj keys
    obtain ⟨hkeys, hvalues⟩ := forall₂_fieldsToJson hnames hrest
    have hvalue : Option.Rel Json.Permuted (literal.toJson? vars) (literal'.toJson? vars) :=
      hfirst.rel_toJson?
    rw [fieldsToJson, fieldsToJson]
    generalize literal.toJson? vars = value, literal'.toJson? vars = value' at hvalue
    cases hvalue with
    | none => exact ⟨hkeys, hvalues⟩
    | some h => exact ⟨congrArg₂ List.cons hname hkeys, .cons h hvalues⟩
end

end Literal

/-- A descriptor makes the same arguments of the same literals. -/
theorem Descriptor.sameArguments_coerceArguments {W O C T : Type} (descriptor : Descriptor W O C T)
    {literals literals' : List (String × Literal)}
    (h : (Literal.object literals).Permuted (.object literals')) (vars : Fields) :
    SameArguments (descriptor.coerceArguments literals vars)
      (descriptor.coerceArguments literals' vars) := by
  cases h with
  | refl => exact .refl _
  | @object _ middle _ distinct keys values order =>
    intro name
    have hordered : (literals'.map Prod.fst).Nodup :=
      (order.map Prod.fst).nodup_iff.1 (keys ▸ distinct)
    rw [coerceArguments, coerceArguments, lookup_overlay distinct, lookup_overlay hordered,
      ← Json.lookup_perm (keys ▸ distinct) order]
    have hliteral := Json.rel_lookup keys values name
    generalize literals.lookup name = literal, middle.lookup name = literal' at hliteral
    have hdefault := SameArguments.refl descriptor.defaultArguments name
    cases hliteral with
    | none => exact hdefault
    | @some literal literal' hsame =>
      have hvalue := hsame.rel_toJson? vars
      rw [Option.bind_some, Option.bind_some]
      generalize literal.toJson? vars = value, literal'.toJson? vars = value' at hvalue
      cases hvalue with
      | none => exact hdefault
      | some hvalue => exact .some hvalue

end QueryEngine
