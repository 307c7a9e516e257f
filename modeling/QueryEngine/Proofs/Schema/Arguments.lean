import QueryEngine.Proofs.Schema.Subtypes
import QueryEngine.Schema.Registry

/-!
# Where arguments come from

A descriptor that is registered for a field takes over the arguments that the field declares, with
their defaults (`Descriptor.Imports`), and keeps them wherever it resolves a field later. So the
defaults for a field of a concrete type are those of the type that its descriptor was registered
for (`Registry.declarer`): the concrete type itself, or an interface that it declares.
`Registry.ImportsArguments.coerceArguments` says what arguments the descriptor makes of the literals
of a selection.
-/

namespace QueryEngine

/-! ## Maps -/

namespace Entries

section
variable {κ α β : Type}

/-- A map where the values are changed, or left out. -/
def mapValues? (f : α → Option β) (entries : List (κ × α)) : List (κ × β) :=
  entries.filterMap fun (key, value) => (f value).map fun value => (key, value)

/-- The first entry is kept with its new value, or dropped when it has none. -/
theorem mapValues?_cons (f : α → Option β) (key : κ) (value : α) (entries : List (κ × α)) :
    mapValues? f ((key, value) :: entries)
      = (f value).elim (mapValues? f entries)
        fun value => (key, value) :: mapValues? f entries := by
  simp only [mapValues?, List.filterMap_cons]
  cases f value <;> rfl

/-- Mapping the values drops entries and moves none. -/
theorem keys_mapValues?_sublist (f : α → Option β) (entries : List (κ × α)) :
    ((mapValues? f entries).map Prod.fst).Sublist (entries.map Prod.fst) := by
  induction entries with
  | nil => exact .refl _
  | cons entry rest ih =>
    obtain ⟨key, value⟩ := entry
    rw [mapValues?_cons]
    cases f value with
    | some b => exact ih.cons_cons key
    | none => exact ih.cons key

variable [DecidableEq κ]

/-- A key no entry has is found nowhere. -/
theorem lookup_eq_none {key : κ} {entries : List (κ × α)} (h : key ∉ entries.map Prod.fst) :
    entries.lookup key = none := by
  refine List.lookup_eq_none_iff.2 fun entry he => ?_
  rw [bne_iff_ne]
  rintro rfl
  exact h (List.mem_map_of_mem he)

/-- With distinct keys, looking a key up after the mapping is mapping what was looked up before. -/
theorem lookup_mapValues? {entries : List (κ × α)} (h : (entries.map Prod.fst).Nodup)
    (f : α → Option β) (key : κ) :
    (mapValues? f entries).lookup key = (entries.lookup key).bind f := by
  induction entries with
  | nil => rfl
  | cons entry rest ih =>
    obtain ⟨k, a⟩ := entry
    obtain ⟨hfresh, hrest⟩ := List.nodup_cons.1 h
    rw [mapValues?_cons]
    by_cases hk : key = k
    · subst hk
      cases hf : f a with
      | some b => simp [hf]
      | none => simp [hf, ih hrest, lookup_eq_none hfresh]
    · have hne : (key == k) = false := by simpa using hk
      rw [List.lookup_cons, hne, ← ih hrest]
      cases f a with
      | some b => simp [List.lookup_cons, hne]
      | none => rfl

end

/-- Keys that are pairs are compared part by part. -/
theorem lookup_put_pair {α : Type} (key other : String × String) (value : α)
    (entries : List ((String × String) × α)) :
    (put key value entries).lookup other = if other = key then some value
      else entries.lookup other := by
  have hbeq : (instBEqProd : BEq (String × String)) = instBEqOfDecidableEq :=
    lawful_beq_subsingleton _ _
  rw [hbeq]
  split
  case isTrue h => rw [h, lookup_put_self]
  case isFalse h => rw [lookup_put_of_ne h]

end Entries

namespace FieldDef

/-- The names of the arguments that the field declares. -/
def argumentNames (field : FieldDef) : List String :=
  field.arguments.map ArgumentDef.name

/-- The default that the field declares for an argument, if it has a value. -/
def default? (field : FieldDef) (argument : String) : Option Json :=
  ((field.arguments.find? (·.name == argument)).bind ArgumentDef.default?).bind
    (Literal.toJson? [])

/-- What the field does not declare has no default. -/
theorem default?_eq_none {field : FieldDef} {argument : String}
    (h : argument ∉ field.argumentNames) : field.default? argument = none := by
  have hnone : field.arguments.find? (·.name == argument) = none := by
    refine List.find?_eq_none.2 fun declared hd => ?_
    simpa using fun e => h (List.mem_map.2 ⟨declared, hd, e⟩)
  rw [default?, hnone]
  rfl

end FieldDef

/-- What a descriptor declares for an argument of a field. -/
def ArgumentDef.declaration (argument : ArgumentDef) : ArgumentDeclaration :=
  ⟨argument.type, argument.default?.bind (Literal.toJson? [])⟩

variable {W O C T : Type}

/-! ## Descriptors -/

namespace Descriptor

/-- The descriptor declares the arguments of the field and no others. -/
structure Imports (descriptor : Descriptor W O C T) (field : FieldDef) : Prop where
  nodup : (descriptor.arguments.map Prod.fst).Nodup
  lookup : ∀ name, descriptor.arguments.lookup name
    = (field.arguments.find? (·.name == name)).map ArgumentDef.declaration

/-- Of two arguments with one name, the one that was declared first stays. -/
theorem lookup_importArguments (descriptor : Descriptor W O C T) (arguments : List ArgumentDef)
    (name : String) :
    (descriptor.importArguments arguments).arguments.lookup name
      = (descriptor.arguments.lookup name).or
        ((arguments.find? (·.name == name)).map ArgumentDef.declaration) := by
  induction arguments generalizing descriptor with
  | nil => exact (Option.or_none).symm
  | cons first rest ih =>
    rw [importArguments, List.foldl_cons, ← importArguments, ih, List.find?_cons]
    by_cases hname : first.name = name
    · subst hname
      cases hknown : descriptor.arguments.lookup first.name with
      | some known => simp [hknown]
      | none => simp [declareArgument, Entries.lookup_put_self, ArgumentDef.declaration]
    · have hne : (first.name == name) = false := by simpa using hname
      rw [hne]
      split
      · rfl
      · rw [declareArgument, Entries.lookup_put_of_ne (Ne.symm hname)]

/-- Importing arguments replaces declarations of the same name and repeats none. -/
theorem nodup_importArguments {descriptor : Descriptor W O C T} (arguments : List ArgumentDef)
    (h : (descriptor.arguments.map Prod.fst).Nodup) :
    ((descriptor.importArguments arguments).arguments.map Prod.fst).Nodup := by
  induction arguments generalizing descriptor with
  | nil => exact h
  | cons first rest ih =>
    rw [importArguments, List.foldl_cons, ← importArguments]
    refine ih ?_
    split
    · exact h
    · exact Entries.nodup_keys_put h _

/-- A descriptor without arguments takes over those of the field. -/
theorem imports_importArguments {descriptor : Descriptor W O C T} (h : descriptor.arguments = [])
    (field : FieldDef) : (descriptor.importArguments field.arguments).Imports field := by
  refine ⟨nodup_importArguments _ (by simp [h]), fun name => ?_⟩
  rw [lookup_importArguments, h]
  rfl

/-- A descriptor without declarations that imports a field holds that field's arguments and nothing
else. -/
theorem imports_importDefinition {descriptor imported : Descriptor W O C T} {field : FieldDef}
    {world world' : W} (h : descriptor.arguments = [])
    (hi : descriptor.importDefinition field world = (.ok imported, world')) :
    imported.Imports field := by
  unfold importDefinition at hi
  split at hi
  · cases hi
  · rename_i named hnamed
    have harguments : named.arguments = [] := by
      unfold setName at hnamed
      split at hnamed
      · cases hnamed
        exact h
      · split at hnamed
        · cases hnamed
          exact h
        · cases hnamed
    split at hi
    · cases hi
    · cases hi
      refine imports_importArguments ?_ field
      exact harguments

/-- A literal goes over what is there if it has a value. -/
theorem overlay_cons (defaults : Fields) (name : String) (literal : Literal)
    (rest : List (String × Literal)) (vars : Fields) :
    overlay defaults ((name, literal) :: rest) vars
      = overlay ((literal.toJson? vars).elim defaults (Entries.put name · defaults)) rest vars := by
  simp only [overlay, List.foldl_cons]
  cases literal.toJson? vars <;> rfl

/-- A literal that has a value wins over the default of the same name. -/
theorem lookup_overlay {literals : List (String × Literal)} (h : (literals.map Prod.fst).Nodup)
    (defaults vars : Fields) (name : String) :
    (overlay defaults literals vars).lookup name
      = ((literals.lookup name).bind (Literal.toJson? vars)).or (defaults.lookup name) := by
  induction literals generalizing defaults with
  | nil => rfl
  | cons entry rest ih =>
    obtain ⟨key, literal⟩ := entry
    obtain ⟨hfresh, hrest⟩ := List.nodup_cons.1 h
    rw [overlay_cons, ih hrest]
    by_cases hname : name = key
    · subst hname
      rw [Entries.lookup_eq_none hfresh, List.lookup_cons_self]
      cases hvalue : literal.toJson? vars with
      | some value => simp [hvalue, Entries.lookup_put_self]
      | none => simp [hvalue]
    · have hne : (name == key) = false := by simpa using hname
      rw [List.lookup_cons, hne]
      cases literal.toJson? vars with
      | some value => rw [Option.elim_some, Entries.lookup_put_of_ne hname]
      | none => rfl

/-- The literals laid over the defaults repeat no argument. -/
theorem nodup_overlay {defaults : Fields} (h : (defaults.map Prod.fst).Nodup)
    (literals : List (String × Literal)) (vars : Fields) :
    ((overlay defaults literals vars).map Prod.fst).Nodup := by
  induction literals generalizing defaults with
  | nil => exact h
  | cons entry rest ih =>
    rw [overlay_cons]
    refine ih ?_
    cases entry.2.toJson? vars with
    | some value => exact Entries.nodup_keys_put h value
    | none => exact h

section
variable {descriptor : Descriptor W O C T} {field : FieldDef} (h : descriptor.Imports field)
include h

/-- The defaults of the descriptor are those of the field. -/
theorem Imports.lookup_defaultArguments (name : String) :
    descriptor.defaultArguments.lookup name = field.default? name := by
  rw [show descriptor.defaultArguments
    = Entries.mapValues? ArgumentDeclaration.default? descriptor.arguments from rfl,
    Entries.lookup_mapValues? h.nodup, h.lookup, FieldDef.default?]
  cases field.arguments.find? (·.name == name) <;> rfl

/-- The argument map of a field node names each argument once. -/
theorem Imports.nodup_coerceArguments (literals : List (String × Literal)) (vars : Fields) :
    ((descriptor.coerceArguments literals vars).map Prod.fst).Nodup :=
  nodup_overlay (h.nodup.sublist (Entries.keys_mapValues?_sublist _ _)) literals vars

/-- The arguments of a selection: the values of the literals that have one, and the defaults that
the field declares. -/
theorem Imports.lookup_coerceArguments {literals : List (String × Literal)}
    (hl : (literals.map Prod.fst).Nodup) (vars : Fields) (name : String) :
    (descriptor.coerceArguments literals vars).lookup name
      = ((literals.lookup name).bind (Literal.toJson? vars)).or (field.default? name) := by
  rw [coerceArguments, lookup_overlay hl, h.lookup_defaultArguments]

end

end Descriptor

/-! ## Registries -/

namespace Registry

variable {registry : Registry W O C T}

/-- The registry answers with a field exactly if the schema declares it on that type. -/
theorem field_eq_ok_iff {type name : String} {field : FieldDef} :
    registry.field type name = .ok field ↔ registry.schema.field? type name = some field := by
  unfold Registry.field
  cases htype : registry.schema.type? type with
  | none => simp [Schema.field?, htype]
  | some definition =>
    cases registry.schema.field? type name <;> simp

/-- The registry was put together from descriptors that declare no arguments themselves. -/
inductive ImportsArguments : Registry W O C T → Prop
  | empty {registry : Registry W O C T} (h : registry.registered = []) : ImportsArguments registry
  | register {registry registry' : Registry W O C T} {type field : String}
    {descriptor : Descriptor W O C T} {world world' : W} (h : ImportsArguments registry)
    (plain : descriptor.arguments = [])
    (done : registry.register type field descriptor world = (.ok registry', world')) :
    ImportsArguments registry'
  | registerDeferred {registry : Registry W O C T} (h : ImportsArguments registry) (type : String)
    (resolver : Option (LazyResolver W T)) :
    ImportsArguments (registry.registerDeferred type resolver)
  | withConfiguration {registry registry' : Registry W O C T} {configuration : Configuration}
    (h : ImportsArguments registry)
    (done : registry.withConfiguration configuration = .ok registry') : ImportsArguments registry'

/-- What a registration puts into the registry. -/
theorem register_eq_ok {registry registry' : Registry W O C T} {type field : String}
    {descriptor : Descriptor W O C T} {world world' : W}
    (h : registry.register type field descriptor world = (.ok registry', world')) :
    ∃ own imported, registry.schema.field? type field = some own
      ∧ descriptor.importDefinition own world = (.ok imported, world')
      ∧ registry'.schema = registry.schema
      ∧ registry'.registered = Entries.put (type, field)
        ⟨.registered registry.registrations, imported⟩ registry.registered := by
  unfold Registry.register at h
  split at h
  · cases h
  · rename_i own hown
    split at h
    · cases h
    · rename_i imported after himported
      cases h
      exact ⟨own, imported, field_eq_ok_iff.1 hown, himported, rfl, rfl⟩

/-- Every descriptor that is registered has the arguments of the field that it is registered for. -/
theorem ImportsArguments.imports (h : registry.ImportsArguments) {type field : String}
    {definition : Definition W O C T}
    (hd : registry.registered.lookup (type, field) = some definition) :
    ∃ own, registry.schema.field? type field = some own ∧ definition.descriptor.Imports own := by
  induction h with
  | empty h =>
    rw [h] at hd
    cases hd
  | @register registry registry' type' field' descriptor world world' _ plain done ih =>
    obtain ⟨own, imported, hown, himported, hschema, hput⟩ := register_eq_ok done
    rw [hput, Entries.lookup_put_pair] at hd
    rw [hschema]
    split at hd
    case isTrue hkey =>
      cases hkey
      cases hd
      exact ⟨own, hown, Descriptor.imports_importDefinition plain himported⟩
    case isFalse => exact ih hd
  | registerDeferred _ _ _ ih => exact ih hd
  | @withConfiguration registry registry' configuration _ done ih =>
    unfold Registry.withConfiguration at done
    cases hvalid : configuration.validate with
    | error => simp [hvalid, Except.map] at done
    | ok =>
      rw [hvalid] at done
      cases done
      exact ih hd

/-- The type whose field the descriptor for a field of an object type belongs to: the first among
the type and the interfaces that it declares for which a descriptor is registered, or the type
itself. -/
def declarer (registry : Registry W O C T) (type field : String) : String :=
  ((type :: registry.interfacesOf type).find? fun declaring =>
    (registry.registered.lookup (declaring, field)).isSome).getD type

/-- The first that something is found for, and what is found for it. -/
theorem findSome?_eq_bind_find? {α β : Type} (f : α → Option β) (items : List α) :
    items.findSome? f = (items.find? fun item => (f item).isSome).bind f := by
  induction items with
  | nil => rfl
  | cons item rest ih =>
    rw [List.findSome?_cons, List.find?_cons]
    cases hitem : f item with
    | some found => exact hitem.symm
    | none => exact ih

/-- A field of an object type has a descriptor, with the arguments of the field that it belongs
to. -/
theorem ImportsArguments.exists_definition? (h : registry.ImportsArguments) {type name : String}
    {own : FieldDef} (ho : registry.schema.field? type name = some own) :
    ∃ definition source, registry.definition? type name = some definition
      ∧ registry.schema.field? (registry.declarer type name) name = some source
      ∧ definition.descriptor.Imports source := by
  unfold definition? declarer
  simp only [findSome?_eq_bind_find?]
  cases hfind : (type :: registry.interfacesOf type).find? fun declaring =>
      (registry.registered.lookup (declaring, name)).isSome with
  | none =>
    rw [Option.bind_none, Option.getD_none, field_eq_ok_iff.2 ho]
    exact ⟨_, own, rfl, ho, Descriptor.imports_importArguments rfl own⟩
  | some declaring =>
    have hregistered := List.find?_some hfind
    obtain ⟨definition, hd⟩ := Option.isSome_iff_exists.1 hregistered
    obtain ⟨source, hsource, himports⟩ := h.imports hd
    rw [Option.bind_some, hd]
    exact ⟨definition, source, rfl, hsource, himports⟩

/-- The concrete type stands for the type whose field its descriptor belongs to. -/
theorem satisfies_declarer (hs : registry.schema.WellFormed) (type field : String) :
    registry.schema.satisfies type (registry.declarer type field) := by
  unfold declarer
  cases hfind : (type :: registry.interfacesOf type).find? fun declaring =>
      (registry.registered.lookup (declaring, field)).isSome with
  | none => simp [Schema.satisfies]
  | some declaring =>
    rcases List.mem_cons.1 (List.mem_of_find?_eq_some hfind) with rfl | hm
    · simp [Schema.satisfies]
    · unfold interfacesOf at hm
      split at hm
      case h_1 name interfaces fields htype =>
        obtain ⟨hkeeps, -⟩ := hs.keepsInterface (Schema.type?_eq_some htype).2 hm
        obtain ⟨_, _, _, hinterface, -⟩ := Schema.keepsInterface_iff.1 hkeeps
        rw [Option.getD_some, Schema.satisfies, Bool.or_eq_true]
        exact .inr (Schema.isSubtype_iff.2 (.inl ⟨_, _, _, _, hinterface, htype, hm⟩))
      case h_2 => cases hm

/-- The arguments that the descriptor for a field of an object type makes of the literals of a
selection. They are arguments that the field declares. Each has the value of its literal, if that
has one, or else the default that is declared by the type whose field the descriptor belongs to. The
selection is made on any type that the object type stands for. -/
theorem ImportsArguments.coerceArguments (h : registry.ImportsArguments)
    (hs : registry.schema.WellFormed) {concrete owner name : String} {own promised : FieldDef}
    (ho : registry.schema.field? concrete name = some own)
    (hc : registry.schema.satisfies concrete owner)
    (hp : registry.schema.field? owner name = some promised)
    {literals : List (String × Literal)} (hl : (literals.map Prod.fst).Nodup)
    (hd : literals.map Prod.fst ⊆ promised.argumentNames) (vars : Fields) :
    ∃ definition source, registry.definition? concrete name = some definition
      ∧ registry.schema.field? (registry.declarer concrete name) name = some source
      ∧ ((definition.descriptor.coerceArguments literals vars).map Prod.fst).Nodup
      ∧ ∀ argument, (definition.descriptor.coerceArguments literals vars).lookup argument
        = if argument ∈ own.argumentNames then
            ((literals.lookup argument).bind (Literal.toJson? vars)).or (source.default? argument)
          else none := by
  obtain ⟨definition, source, hdefinition, hsource, himports⟩ := h.exists_definition? ho
  refine ⟨definition, source, hdefinition, hsource, himports.nodup_coerceArguments literals vars,
    fun argument => ?_⟩
  rw [himports.lookup_coerceArguments hl]
  split
  case isTrue => rfl
  case isFalse hundeclared =>
    have hliteral : literals.lookup argument = none := by
      refine Entries.lookup_eq_none fun hm => hundeclared ?_
      exact hs.arguments_subset hc hp ho (hd hm)
    have hdefault : source.default? argument = none := by
      refine FieldDef.default?_eq_none fun hm => hundeclared ?_
      exact hs.arguments_subset (satisfies_declarer hs concrete name) hsource ho hm
    rw [hliteral, hdefault]
    rfl

end Registry

end QueryEngine
