import Mathlib.Data.List.Nodup
import QueryEngine.Schema.Reader

/-!
# Types that stand for others

In a schema that keeps the rules (`Schema.WellFormed`) a type that declares an interface has the
fields of the interface, and the type of each of them can only be narrower. So the object types that
a field can have on a concrete type are among those it can have on any type that the concrete one
stands for (`possibleTypes_subset`).
-/

namespace QueryEngine

namespace Schema

/-- A schema that adds types which keep the rules to the built-in ones. -/
def WellFormed (schema : Schema) : Prop :=
  ∃ referred own, schema.types = builtIn referred ++ own ∧ schema.isValid own

/-- A schema that is read from a text keeps the rules. -/
theorem wellFormed_of_ofText {text : String} {schema : Schema}
    (h : Schema.ofText text = .ok schema) : schema.WellFormed := by
  rw [Schema.ofText] at h
  split at h
  · rename_i read hread
    cases h
    simp only [Option.bind_eq_bind, Option.bind_eq_some_iff] at hread
    obtain ⟨_, -, _, -, hread⟩ := hread
    simp only [ofItems?, Option.bind_eq_bind, Option.bind_eq_some_iff] at hread
    obtain ⟨defined, -, roots, -, query, -, hvalid⟩ := hread
    split at hvalid
    · cases hvalid
      exact ⟨_, defined, rfl, ‹_›⟩
    · cases hvalid
  · cases h

/-! ## Built-in types -/

/-- The built-in types declare no interfaces, their fields have free names, and none is a union. -/
theorem builtIn_plain {referred : List String} {definition : TypeDef}
    (h : definition ∈ builtIn referred) :
    definition.body.interfaces = []
      ∧ (∀ field ∈ definition.body.fields, isReserved field.name = false)
      ∧ ∀ members, definition.body ≠ .union members := by
  have hintro : introspectionTypes.all (fun definition => definition.body.interfaces.isEmpty
      && (definition.body.fields.all fun field => ! isReserved field.name)
      && (! definition.body.isComposite || definition.body.isObject)) = true := by
    decide +kernel
  rcases List.mem_append.1 h with h | h
  · have hplain := List.all_eq_true.1 hintro definition h
    simp only [Bool.and_eq_true, List.isEmpty_iff, List.all_eq_true, Bool.not_eq_true'] at hplain
    refine ⟨hplain.1.1, hplain.1.2, ?_⟩
    intro members hu
    rw [hu] at hplain
    cases hplain.2
  · obtain ⟨name, -, rfl⟩ := List.mem_map.1 h
    exact ⟨rfl, fun _ h => (by cases h), fun _ h => by cases h⟩

/-- The names of the built-in types are distinct, and none is free for another type. -/
theorem builtIn_names (referred : List String) :
    ((builtIn referred).map TypeDef.name).Nodup
      ∧ ∀ name ∈ (builtIn referred).map TypeDef.name,
        isReserved name ∨ name ∈ alwaysScalars ++ onDemandScalars := by
  have hnames : (builtIn referred).map TypeDef.name
      = introspectionTypes.map TypeDef.name
        ++ (alwaysScalars ++ onDemandScalars.filter referred.contains) := by
    simp [builtIn, Function.comp_def]
  have hsub : (alwaysScalars ++ onDemandScalars.filter referred.contains).Sublist
      (alwaysScalars ++ onDemandScalars) := List.filter_sublist.append_left _
  have hnodup : (introspectionTypes.map TypeDef.name
      ++ (alwaysScalars ++ onDemandScalars)).Nodup := by decide +kernel
  have hreserved : introspectionTypes.all (fun d => isReserved d.name) = true := by
    decide +kernel
  rw [hnames]
  refine ⟨hnodup.sublist (hsub.append_left _), ?_⟩
  intro name hn
  rcases List.mem_append.1 hn with hn | hn
  · obtain ⟨definition, hd, rfl⟩ := List.mem_map.1 hn
    exact .inl (List.all_eq_true.1 hreserved definition hd)
  · exact .inr (hsub.subset hn)

/-! ## The rules -/

/-- A definition that has its names to itself is not reserved, is no scalar and repeats no field. -/
theorem names_of_hasOwnNames {definition : TypeDef} (h : hasOwnNames definition) :
    (isReserved definition.name = false ∧ definition.name ∉ alwaysScalars ++ onDemandScalars)
      ∧ (definition.body.fields.map FieldDef.name).Nodup
      ∧ ∀ field ∈ definition.body.fields, isReserved field.name = false := by
  simp only [hasOwnNames, Bool.and_eq_true, Bool.not_eq_true', List.all_eq_true,
    decide_eq_true_eq] at h
  obtain ⟨⟨hname, hscalar⟩, hparts⟩ := h
  refine ⟨⟨hname, by simpa using hscalar⟩, ?_⟩
  have hfields : definition.body.fields.map FieldDef.name ∈ definition.body.partNames
      ∨ definition.body.fields = [] := by
    cases definition.body <;> simp [TypeBody.fields, TypeBody.partNames]
  rcases hfields with hf | hf
  · obtain ⟨hnodup, hfree⟩ := hparts _ hf
    refine ⟨hnodup, ?_⟩
    intro field hm
    rw [List.any_eq_false] at hfree
    simpa using hfree _ (List.mem_map_of_mem hm)
  · simp [hf]

section
variable {schema : Schema}

/-- What a type that declares an interface keeps. -/
theorem keepsInterface_iff {definition : TypeDef} {interface : String} :
    schema.keepsInterface definition interface ↔
      ∃ name interfaces fields, schema.type? interface = some ⟨name, .interface interfaces fields⟩
        ∧ interface ≠ definition.name ∧ (∀ i ∈ interfaces, i ∈ definition.body.interfaces)
        ∧ ∀ promised ∈ fields, ∃ field ∈ definition.body.fields,
          field.name = promised.name ∧ schema.keepsField field promised := by
  unfold keepsInterface
  rcases schema.type? interface with _ | ⟨name, body⟩
  · simp
  · cases body <;> simp [and_assoc]

/-- The type found under a name bears that name and is one of the schema's. -/
theorem type?_eq_some {name : String} {definition : TypeDef}
    (h : schema.type? name = some definition) :
    definition.name = name ∧ definition ∈ schema.types :=
  ⟨by simpa using List.find?_some h, List.mem_of_find?_eq_some h⟩

/-- The field found under a name bears that name. -/
theorem name_of_find? {fields : List FieldDef} {name : String} {field : FieldDef}
    (h : fields.find? (·.name == name) = some field) : field.name = name := by
  simpa using List.find?_some h

/-- What `isSubtype` looks up. -/
theorem isSubtype_iff {abstract type : String} :
    schema.isSubtype abstract type ↔
      (∃ name interfaces fields definition,
        schema.type? abstract = some ⟨name, .interface interfaces fields⟩
          ∧ schema.type? type = some definition ∧ abstract ∈ definition.body.interfaces)
      ∨ ∃ name members, schema.type? abstract = some ⟨name, .union members⟩ ∧ type ∈ members := by
  unfold isSubtype
  rcases schema.type? abstract with _ | ⟨name, body⟩
  · simp
  · cases body <;> simp
    cases schema.type? type <;> simp

variable (h : schema.WellFormed)
include h

/-- A type is built in or keeps the rules. -/
theorem WellFormed.builtIn_or_admits {definition : TypeDef} (hd : definition ∈ schema.types) :
    (∃ referred, definition ∈ builtIn referred)
      ∨ hasOwnNames definition ∧ schema.hasReferences definition
        ∧ ∀ interface ∈ definition.body.interfaces, schema.keepsInterface definition interface := by
  obtain ⟨referred, own, ht, hv⟩ := h
  rw [ht] at hd
  rw [isValid, Bool.and_eq_true, List.all_eq_true] at hv
  rcases List.mem_append.1 hd with hd | hd
  · exact .inl ⟨referred, hd⟩
  · have ha := hv.2 definition hd
    simp only [admits, Bool.and_eq_true, List.all_eq_true] at ha
    exact .inr ⟨ha.1.1.1.2, ha.1.1.2, ha.1.2⟩

/-- The types have distinct names. -/
theorem WellFormed.nodup : (schema.types.map TypeDef.name).Nodup := by
  obtain ⟨referred, own, ht, hv⟩ := h
  simp only [isValid, Bool.and_eq_true, List.all_eq_true, decide_eq_true_eq] at hv
  obtain ⟨hnodup, htaken⟩ := builtIn_names referred
  rw [ht, List.map_append, List.nodup_append]
  refine ⟨hnodup, hv.1, ?_⟩
  intro a ha b hb hab
  subst hab
  obtain ⟨definition, hd, rfl⟩ := List.mem_map.1 hb
  have hadmits := hv.2 definition hd
  simp only [admits, Bool.and_eq_true] at hadmits
  obtain ⟨hfree, hscalar⟩ := (names_of_hasOwnNames hadmits.1.1.1.2).1
  rcases htaken _ ha with hr | hs
  · simp [hfree] at hr
  · exact hscalar hs

omit h in
/-- The root types that are found are object types. -/
theorem namesObject_of_roots? {types : List TypeDef} {named : List (List (OperationKind × String))}
    {more all : List (OperationKind × String)} (hr : roots? types named more = some all) :
    ∀ root ∈ all, namesObject types root.2 := by
  -- Whichever way the roots are found, the same test is made of them.
  have htest : ∀ roots : List (OperationKind × String),
      (if ! roots.isEmpty && decide ((roots ++ more).map Prod.fst).Nodup
          && (roots ++ more).all (fun root => namesObject types root.2) then some (roots ++ more)
        else none) = some all → ∀ root ∈ all, namesObject types root.2 := by
    intro roots hall
    split at hall
    · rename_i hvalid
      cases hall
      exact List.all_eq_true.1 (Bool.and_eq_true_iff.1 hvalid).2
    · cases hall
  unfold roots? at hr
  split at hr
  · exact htest _ hr
  · exact htest _ hr
  · cases hr

/-- A name of an object type is the name of no other type. -/
theorem WellFormed.names_of_namesObject {name : String} (hn : namesObject schema.types name) :
    schema.names TypeBody.isObject name := by
  obtain ⟨definition, hd, hobject⟩ := List.any_eq_true.1 hn
  rw [Bool.and_eq_true, beq_iff_eq] at hobject
  cases ht : schema.type? name with
  | none => exact absurd hobject.1 (by simpa using List.find?_eq_none.1 ht definition hd)
  | some found =>
    have hsame : found = definition := List.inj_on_of_nodup_map h.nodup (type?_eq_some ht).2 hd
      ((type?_eq_some ht).1.trans hobject.1.symm)
    rw [names, ht, hsame]
    exact hobject.2

omit h in
/-- The root type of queries is an object type in a schema that is read from a text. -/
theorem isObject_query_of_ofText {text : String} (hr : Schema.ofText text = .ok schema) :
    schema.names TypeBody.isObject schema.query := by
  have h := wellFormed_of_ofText hr
  refine h.names_of_namesObject ?_
  rw [Schema.ofText] at hr
  split at hr
  · rename_i read hread
    cases hr
    simp only [Option.bind_eq_bind, Option.bind_eq_some_iff] at hread
    obtain ⟨_, -, _, -, hread⟩ := hread
    simp only [ofItems?, Option.bind_eq_bind, Option.bind_eq_some_iff] at hread
    obtain ⟨defined, -, roots, hroots, query, hquery, hvalid⟩ := hread
    split at hvalid
    · cases hvalid
      obtain ⟨_, _, hmem, -⟩ := List.lookup_eq_some_iff.1 hquery
      exact namesObject_of_roots? hroots (.query, query) (by simp [hmem])
    · cases hvalid
  · cases hr

/-- No field has a name that is kept for the meta fields. -/
theorem WellFormed.isReserved_eq_false {definition : TypeDef} (hd : definition ∈ schema.types)
    {field : FieldDef} (hf : field ∈ definition.body.fields) : isReserved field.name = false := by
  rcases h.builtIn_or_admits hd with ⟨_, hb⟩ | ⟨hn, -⟩
  · exact (builtIn_plain hb).2.1 field hf
  · exact (names_of_hasOwnNames hn).2.2 field hf

/-- A type that declares an interface keeps what it promises. -/
theorem WellFormed.keepsInterface {definition : TypeDef} (hd : definition ∈ schema.types)
    {interface : String} (hi : interface ∈ definition.body.interfaces) :
    schema.keepsInterface definition interface
      ∧ (definition.body.fields.map FieldDef.name).Nodup := by
  rcases h.builtIn_or_admits hd with ⟨_, hb⟩ | ⟨hn, -, hk⟩
  · rw [(builtIn_plain hb).1] at hi
    cases hi
  · exact ⟨hk interface hi, (names_of_hasOwnNames hn).2.1⟩

/-- The members of a union are object types. -/
theorem WellFormed.isObject_of_member {union name : String} {members : List String}
    (hu : schema.type? union = some ⟨name, .union members⟩) {type : String}
    (hm : type ∈ members) : ∃ definition, schema.type? type = some definition
      ∧ definition.body.isObject := by
  rcases h.builtIn_or_admits (type?_eq_some hu).2 with ⟨referred, hb⟩ | ⟨-, hr, -⟩
  · exact absurd rfl ((builtIn_plain hb).2.2 members)
  · simp only [hasReferences, List.all_eq_true] at hr
    have hnames := hr type hm
    rw [names, Option.any_eq_true] at hnames
    obtain ⟨definition, hd, ho⟩ := hnames
    exact ⟨definition, hd, ho⟩

/-! ## Possible types -/

omit h in
/-- The names that survive a filter on the object types are those of object types that pass it. -/
theorem mem_map_name_filter {types : List TypeDef} {p : String → Bool} {concrete : String} :
    concrete ∈ (types.filter fun d => d.body.isObject && p d.name).map TypeDef.name
      ↔ (∃ d ∈ types, d.name = concrete ∧ d.body.isObject) ∧ p concrete := by
  simp only [List.mem_map, List.mem_filter, Bool.and_eq_true]
  constructor
  · rintro ⟨d, ⟨hd, ho, hp⟩, rfl⟩
    exact ⟨⟨d, hd, rfl, ho⟩, hp⟩
  · rintro ⟨⟨d, hd, rfl, ho⟩, hp⟩
    exact ⟨d, ⟨hd, ho, hp⟩, rfl⟩

omit h in
/-- The object types that a type stands for. -/
theorem mem_possibleTypes {type concrete : String} :
    concrete ∈ schema.possibleTypes type ↔
      (concrete = type ∧ ∃ definition, schema.type? type = some definition
        ∧ definition.body.isObject)
      ∨ (∃ definition ∈ schema.types, definition.name = concrete ∧ definition.body.isObject)
        ∧ schema.isSubtype type concrete := by
  unfold possibleTypes
  rcases ht : schema.type? type with _ | ⟨name, body⟩
  · simp [isSubtype, ht]
  · obtain rfl : name = type := (type?_eq_some ht).1
    cases body with
    | interface | union =>
      refine mem_map_name_filter.trans ⟨.inr, ?_⟩
      rintro (⟨-, _, hd, ho⟩ | hm)
      · cases hd
        cases ho
      · exact hm
    | object | scalar | enumeration | input => simp [isSubtype, ht, TypeBody.isObject]

omit h in
/-- An object type that a type stands for satisfies it as a condition. -/
theorem satisfies_of_mem_possibleTypes {type concrete : String}
    (hm : concrete ∈ schema.possibleTypes type) : schema.satisfies concrete type := by
  rw [satisfies, Bool.or_eq_true]
  exact (mem_possibleTypes.1 hm).imp (fun hs => by simpa using hs.1) And.right

/-- A well-formed schema lists no concrete type twice among the possible types of a type. -/
theorem WellFormed.nodup_possibleTypes (type : String) : (schema.possibleTypes type).Nodup := by
  unfold possibleTypes
  split
  · exact List.nodup_singleton _
  · exact h.nodup.sublist (List.filter_sublist.map _)
  · exact h.nodup.sublist (List.filter_sublist.map _)
  · exact List.nodup_nil

/-- A type stands for all object types that a type stands for which it stands for. -/
theorem WellFormed.possibleTypes_of_isSubtype {type promised concrete : String}
    (hs : schema.isSubtype promised type) (hm : concrete ∈ schema.possibleTypes type) :
    concrete ∈ schema.possibleTypes promised := by
  rcases mem_possibleTypes.1 hm with ⟨rfl, definition, ht, ho⟩ | ⟨hobject, hsub⟩
  · obtain ⟨hname, hd⟩ := type?_eq_some ht
    exact mem_possibleTypes.2 (.inr ⟨⟨definition, hd, hname, ho⟩, hs⟩)
  · refine mem_possibleTypes.2 (.inr ⟨hobject, ?_⟩)
    rcases isSubtype_iff.1 hs with ⟨name, interfaces, fields, between, hp, ht, hi⟩ |
      ⟨name, members, hu, hmember⟩
    · rcases isSubtype_iff.1 hsub with ⟨_, others, _, own, ht', hc, hown⟩ | ⟨_, members, hu, -⟩
      · -- The type is an interface: what declares it declares the interfaces that it declares.
        obtain ⟨hkeeps, -⟩ := h.keepsInterface (type?_eq_some hc).2 hown
        obtain ⟨_, _, _, ht'', -, hall, -⟩ := keepsInterface_iff.1 hkeeps
        rw [ht] at ht''
        cases ht''
        exact isSubtype_iff.2 (.inl ⟨_, _, _, own, hp, hc, hall _ hi⟩)
      · rw [ht] at hu
        cases hu
        cases hi
    · obtain ⟨definition, hd, ho⟩ := h.isObject_of_member hu hmember
      rcases isSubtype_iff.1 hsub with ⟨_, _, _, _, ht, -⟩ | ⟨_, _, ht, -⟩ <;>
        (rw [hd] at ht; cases ht; cases ho)

omit h in
/-- What a narrower type is made of. -/
theorem inner_of_refines {type promised : TypeRef} (hr : type.refines schema.isSubtype promised) :
    type.inner = promised.inner ∨ schema.isSubtype promised.inner type.inner := by
  induction type generalizing promised with
  | named name | nonNullNamed name =>
    cases promised <;> simp_all [TypeRef.refines, TypeRef.inner]
  | list item ih | nonNullList item ih =>
    cases promised <;> simp_all [TypeRef.refines, TypeRef.inner]

/-! ## Fields -/

omit h in
/-- The definition of a field: one of the type's own, or a meta field that has the same definition
on every type that has it. -/
theorem field?_eq_some {type name : String} {field : FieldDef}
    (hf : schema.field? type name = some field) :
    (∃ definition, schema.type? type = some definition
        ∧ definition.body.fields.find? (·.name == name) = some field)
      ∨ isReserved name
        ∧ ((typenameField :: introspectionFields).find? (·.name == name)) = some field := by
  unfold field? at hf
  obtain ⟨definition, hd, hf⟩ := Option.bind_eq_some_iff.1 hf
  cases hown : definition.body.fields.find? (·.name == name) with
  | some own =>
    rw [hown] at hf
    cases hf
    exact .inl ⟨definition, hd, hown⟩
  | none =>
    right
    rw [hown] at hf
    simp only at hf
    have hmeta : ((typenameField :: introspectionFields).find? (·.name == name)) = some field := by
      rw [List.find?_cons]
      split at hf
      · rename_i hname
        cases hf
        rw [Bool.and_eq_true, beq_iff_eq] at hname
        simp [hname.1]
      · split at hf
        · have hother : introspectionFields.all (fun f => f.name != typenameField.name) := by
            decide +kernel
          have hne := List.all_eq_true.1 hother field (List.mem_of_find?_eq_some hf)
          have hname : field.name = name := name_of_find? hf
          have hskip : (typenameField.name == name) = false := by
            rw [bne_iff_ne, hname] at hne
            simpa using fun e => hne e.symm
          rw [hskip]
          exact hf
        · cases hf
    refine ⟨?_, hmeta⟩
    have hall : (typenameField :: introspectionFields).all (fun f => isReserved f.name) := by
      decide +kernel
    have hname : field.name = name := name_of_find? hmeta
    exact hname ▸ List.all_eq_true.1 hall field (List.mem_of_find?_eq_some hmeta)

/-- A field of a concrete type is the field of any type that the concrete one stands for, or keeps
what that one promises. -/
theorem WellFormed.eq_or_keepsField {owner concrete name : String} {promised own : FieldDef}
    (hs : schema.satisfies concrete owner) (hp : schema.field? owner name = some promised)
    (ho : schema.field? concrete name = some own) :
    own = promised ∨ schema.keepsField own promised := by
  rw [satisfies, Bool.or_eq_true, beq_iff_eq] at hs
  rcases hs with rfl | hs
  · rw [hp] at ho
    cases ho
    exact .inl rfl
  rcases field?_eq_some hp with ⟨abstract, habstract, hpromised⟩ | ⟨hreserved, hpromised⟩
  · have hfree : isReserved name = false := by
      have hname : promised.name = name := name_of_find? hpromised
      exact hname ▸ h.isReserved_eq_false (type?_eq_some habstract).2
        (List.mem_of_find?_eq_some hpromised)
    rcases field?_eq_some ho with ⟨definition, hdefinition, hown⟩ | ⟨hreserved, -⟩
    · rcases isSubtype_iff.1 hs with ⟨_, _, fields, _, ha, hc, hi⟩ | ⟨_, _, ha, -⟩
      · rw [habstract] at ha
        cases ha
        rw [hdefinition] at hc
        cases hc
        obtain ⟨hkeeps, hnodup⟩ := h.keepsInterface (type?_eq_some hdefinition).2 hi
        obtain ⟨_, _, _, ht, -, -, hfields⟩ := keepsInterface_iff.1 hkeeps
        rw [habstract] at ht
        cases ht
        obtain ⟨field, hf, hname, hfield⟩ := hfields promised (List.mem_of_find?_eq_some hpromised)
        obtain rfl : field = own := by
          refine List.inj_on_of_nodup_map hnodup hf (List.mem_of_find?_eq_some hown) ?_
          rw [hname, name_of_find? hpromised, name_of_find? hown]
        exact .inr hfield
      · rw [habstract] at ha
        cases ha
        cases hpromised
    · simp [hfree] at hreserved
  · rcases field?_eq_some ho with ⟨definition, hdefinition, hown⟩ | ⟨-, hown⟩
    · have hname : own.name = name := name_of_find? hown
      have hfree := h.isReserved_eq_false (type?_eq_some hdefinition).2
        (List.mem_of_find?_eq_some hown)
      simp [hname, hreserved] at hfree
    · rw [hpromised] at hown
      cases hown
      exact .inl rfl

omit h in
/-- A field other than the one that names a type is one of the type's own, or the type is the root
type of queries. -/
theorem field?_eq_some_of_ne {type name : String} {field : FieldDef}
    (hn : name ≠ typenameField.name) (hf : schema.field? type name = some field) :
    (∃ definition, schema.type? type = some definition
        ∧ definition.body.fields.find? (·.name == name) = some field)
      ∨ type = schema.query := by
  unfold field? at hf
  obtain ⟨definition, hd, hf⟩ := Option.bind_eq_some_iff.1 hf
  cases hown : definition.body.fields.find? (·.name == name) with
  | some own =>
    rw [hown] at hf
    cases hf
    exact .inl ⟨definition, hd, hown⟩
  | none =>
    have hname : (name == typenameField.name) = false := beq_false_of_ne hn
    simp only [hown, hname, Bool.false_and, Bool.false_eq_true, if_false] at hf
    split at hf
    · exact .inr (eq_of_beq ‹_›)
    · cases hf

omit h in
/-- An object type stands for itself only. -/
theorem eq_of_satisfies {owner concrete : String} (ho : schema.names TypeBody.isObject owner)
    (hs : schema.satisfies concrete owner) : concrete = owner := by
  rw [satisfies, Bool.or_eq_true, beq_iff_eq] at hs
  refine hs.resolve_right fun hsub => ?_
  obtain ⟨definition, hd, hobject⟩ := (Option.any_eq_true ..).1 ho
  rcases isSubtype_iff.1 hsub with ⟨_, _, _, _, hd', -⟩ | ⟨_, _, hd', -⟩ <;>
    (cases hd.symm.trans hd'; cases hobject)

/-- A concrete type has the fields of every type that it stands for, the one that names its type
apart. -/
theorem WellFormed.exists_field? (hq : schema.names TypeBody.isObject schema.query)
    {owner concrete name : String} {promised : FieldDef} (hs : schema.satisfies concrete owner)
    (hn : name ≠ typenameField.name) (hp : schema.field? owner name = some promised) :
    ∃ own, schema.field? concrete name = some own := by
  by_cases hsame : concrete = owner
  · exact ⟨promised, hsame ▸ hp⟩
  rcases field?_eq_some_of_ne hn hp with ⟨abstract, habstract, hpromised⟩ | rfl
  · rw [satisfies, Bool.or_eq_true, beq_iff_eq] at hs
    rcases isSubtype_iff.1 (hs.resolve_left hsame) with ⟨_, _, fields, definition, ha, hc, hi⟩ |
      ⟨_, _, ha, -⟩
    · rw [habstract] at ha
      cases ha
      obtain ⟨hkeeps, -⟩ := h.keepsInterface (type?_eq_some hc).2 hi
      obtain ⟨_, _, _, ht, -, -, hfields⟩ := keepsInterface_iff.1 hkeeps
      cases habstract.symm.trans ht
      obtain ⟨field, hf, hname, -⟩ := hfields promised (List.mem_of_find?_eq_some hpromised)
      have hfound : (definition.body.fields.find? (·.name == name)).isSome :=
        List.find?_isSome.2 ⟨field, hf, by simp [hname, name_of_find? hpromised]⟩
      obtain ⟨own, hown⟩ := Option.isSome_iff_exists.1 hfound
      exact ⟨own, by simp [field?, hc, hown]⟩
    · rw [habstract] at ha
      cases ha
      cases hpromised
  · exact absurd (eq_of_satisfies hq hs) hsame

/-- The object types that a field can have on a concrete type are among those that it can have on
any type that the concrete one stands for. -/
theorem WellFormed.possibleTypes_subset {owner concrete name : String} {promised own : FieldDef}
    (hs : schema.satisfies concrete owner) (hp : schema.field? owner name = some promised)
    (ho : schema.field? concrete name = some own) {type : String}
    (hm : type ∈ schema.possibleTypes own.type.inner) :
    type ∈ schema.possibleTypes promised.type.inner := by
  rcases h.eq_or_keepsField hs hp ho with rfl | hkeeps
  · exact hm
  · simp only [keepsField, Bool.and_eq_true] at hkeeps
    rcases inner_of_refines hkeeps.1.1 with he | hsub
    · exact he ▸ hm
    · exact h.possibleTypes_of_isSubtype hsub hm

/-- A field of a concrete type has the arguments that it has on any type that the concrete one
stands for. -/
theorem WellFormed.arguments_subset {owner concrete name : String} {promised own : FieldDef}
    (hs : schema.satisfies concrete owner) (hp : schema.field? owner name = some promised)
    (ho : schema.field? concrete name = some own) :
    promised.arguments.map ArgumentDef.name ⊆ own.arguments.map ArgumentDef.name := by
  rcases h.eq_or_keepsField hs hp ho with rfl | hkeeps
  · exact List.Subset.refl _
  · intro argument hm
    obtain ⟨given, hgiven, rfl⟩ := List.mem_map.1 hm
    simp only [keepsField, Bool.and_eq_true, List.all_eq_true, List.any_eq_true, beq_iff_eq]
      at hkeeps
    obtain ⟨taken, htaken, hname, -⟩ := hkeeps.1.2 given hgiven
    exact List.mem_map.2 ⟨taken, htaken, hname⟩

end

end Schema

end QueryEngine
