import Mathlib.Data.List.Induction
import QueryEngine.Proofs.Schema.Arguments
import QueryEngine.Schema.Catalogue

/-!
# What a catalogue answers

A catalogue holds what was registered, and beside it the defaults that lookups made. What it answers
for a field follows from the registrations that succeeded (`registrations`), whatever lookups and
failed registrations came between them: `Catalogue.Holds` says how the two stores stand to that
history, every call keeps it (`Catalogue.Holds.run`), and `Catalogue.lookUp_runAll` reads the
answers off. Two lookups of a field answer one and the same definition as long as nothing is
registered between them, since a default that was made is never dropped or replaced
(`Catalogue.Extends`).
-/

namespace QueryEngine

variable {W O C T : Type}

/-! ## Histories -/

/-- A call on a catalogue. -/
inductive CatalogueCall (W O C T : Type) where
  | register (type field : String) (descriptor : Descriptor W O C T)
  | lookUp (type field : String)

/-- A field, by type and name, with a descriptor that was registered for it. -/
abbrev Registration (W O C T : Type) := (String × String) × Descriptor W O C T

namespace CatalogueCall

/-- The catalogue and the world after the call. -/
def run (call : CatalogueCall W O C T) (catalogue : Catalogue W O C T) (world : W) :
    Catalogue W O C T × W :=
  match call with
  | register type field descriptor => (catalogue.register type field descriptor world).2
  | lookUp type field => ((catalogue.lookUp type field).2, world)

/-- The catalogue and the world after the calls, from the first to the last. -/
def runAll (calls : List (CatalogueCall W O C T)) (catalogue : Catalogue W O C T) (world : W) :
    Catalogue W O C T × W :=
  calls.foldl (fun (catalogue, world) call => call.run catalogue world) (catalogue, world)

/-- The registration that the call makes for a schema, if it succeeds, and the world after the
call. The descriptor has taken over what the field's definition says. -/
def registration? (schema : Schema) (call : CatalogueCall W O C T) (world : W) :
    Option (Registration W O C T) × W :=
  match call with
  | lookUp _ _ => (none, world)
  | register type field descriptor =>
    match schema.field? type field with
    | none => (none, world)
    | some own =>
      let (imported, world) := descriptor.importDefinition own world
      (imported.toOption.map fun descriptor => ((type, field), descriptor), world)

/-- The registrations that succeed, from the first to the last, and the world after all calls. -/
def registrations (schema : Schema) (calls : List (CatalogueCall W O C T)) (world : W) :
    List (Registration W O C T) × W :=
  calls.foldl (fun (done, world) call =>
    let (next, world) := call.registration? schema world
    (done ++ next.toList, world)) ([], world)

/-- One more call runs on what the earlier calls left. -/
theorem runAll_concat (calls : List (CatalogueCall W O C T)) (call : CatalogueCall W O C T)
    (catalogue : Catalogue W O C T) (world : W) :
    runAll (calls ++ [call]) catalogue world
      = call.run (runAll calls catalogue world).1 (runAll calls catalogue world).2 :=
  List.foldl_append

/-- A history in two parts runs the second part on what the first one left. -/
theorem runAll_append (calls more : List (CatalogueCall W O C T)) (catalogue : Catalogue W O C T)
    (world : W) : runAll (calls ++ more) catalogue world
      = runAll more (runAll calls catalogue world).1 (runAll calls catalogue world).2 :=
  List.foldl_append

/-- The registrations of a longer history are those of the shorter one and, if it succeeds, the last
call's. -/
theorem registrations_concat (schema : Schema) (calls : List (CatalogueCall W O C T))
    (call : CatalogueCall W O C T) (world : W) :
    registrations schema (calls ++ [call]) world
      = ((registrations schema calls world).1
          ++ (call.registration? schema (registrations schema calls world).2).1.toList,
        (call.registration? schema (registrations schema calls world).2).2) :=
  List.foldl_append

end CatalogueCall

open CatalogueCall

/-- The latest registration for a field, as the definition that it made. -/
def latest (done : List (Registration W O C T)) (key : String × String) :
    Option (Definition W O C T) :=
  (done.zipIdx.reverse.find? fun entry => entry.1.1 = key).map fun entry =>
    ⟨.registered entry.2, entry.1.2⟩

/-- The last registration of a field is the one that counts. -/
theorem latest_concat (done : List (Registration W O C T)) (registration : Registration W O C T)
    (key : String × String) : latest (done ++ [registration]) key
      = if registration.1 = key then some ⟨.registered done.length, registration.2⟩
        else latest done key := by
  simp only [latest, List.zipIdx_append, List.reverse_append, List.zipIdx_singleton,
    List.reverse_singleton, List.singleton_append, List.find?_cons, Nat.zero_add]
  by_cases h : registration.1 = key <;> simp [h]

/-- A descriptor of that name into which nothing but the definition of a field went. -/
structure Descriptor.IsDefault (descriptor : Descriptor W O C T) (name : String)
    (field : FieldDef) : Prop where
  name : descriptor.name = some name
  returnType : descriptor.returnType = .bound field.type
  strategy : descriptor.strategy = .standard none none
  imports : descriptor.Imports field

namespace Descriptor

/-- Taking over arguments changes nothing but the arguments. -/
theorem importArguments_eq (descriptor : Descriptor W O C T) (arguments : List ArgumentDef) :
    descriptor.importArguments arguments
      = { descriptor with arguments := (descriptor.importArguments arguments).arguments } := by
  induction arguments generalizing descriptor with
  | nil => rfl
  | cons first rest ih =>
    rw [importArguments, List.foldl_cons, ← importArguments, ih]
    split <;> rfl

/-- The descriptor made for a field of the schema has its name, type and arguments, and the standard
strategy with nothing set. -/
theorem isDefault_ofField (field : FieldDef) :
    (ofField field : Descriptor W O C T).IsDefault field.name field := by
  have hothers := importArguments_eq
    { name := some field.name, returnType := .bound field.type : Descriptor W O C T }
    field.arguments
  exact ⟨congrArg name hothers, congrArg returnType hothers, congrArg strategy hothers,
    imports_importArguments rfl field⟩

end Descriptor

namespace Schema

/-- A field is found under its name. -/
theorem name_of_field? {schema : Schema} {type name : String} {field : FieldDef}
    (h : schema.field? type name = some field) : field.name = name := by
  obtain ⟨_, _, hown⟩ | ⟨_, hmeta⟩ := field?_eq_some h
  · exact name_of_find? hown
  · exact name_of_find? hmeta

/-- The interfaces that an object type declares, in the order of declaration; another type has
none. -/
def interfacesOf (schema : Schema) (type : String) : List String :=
  match schema.type? type with
  | some ⟨_, .object interfaces _⟩ => interfaces
  | _ => []

end Schema

/-- A field that a registry does not find is not in its schema. -/
theorem Registry.field?_eq_none {registry : Registry W O C T} {type field : String}
    {error : ConfigurationError} (h : registry.field type field = .error error) :
    registry.schema.field? type field = none := by
  cases hown : registry.schema.field? type field with
  | none => rfl
  | some own => cases h.symm.trans (Registry.field_eq_ok_iff.2 hown)

/-- What a history says about a field of a type: the latest registration for the type, or else the
latest one for the first of its interfaces that has one. -/
def decisive (schema : Schema) (done : List (Registration W O C T)) (type field : String) :
    Option (Definition W O C T) :=
  (type :: schema.interfacesOf type).findSome? fun declaring => latest done (declaring, field)

namespace Catalogue

/-! ## One call -/

/-- The catalogue with one more registration. -/
def attach (catalogue : Catalogue W O C T) (registration : Registration W O C T) :
    Catalogue W O C T :=
  { catalogue with registry := { catalogue.registry with
    registered := Entries.put registration.1
      ⟨.registered catalogue.registry.registrations, registration.2⟩ catalogue.registry.registered
    registrations := catalogue.registry.registrations + 1 } }

/-- A registration that succeeds is one of the history, one that fails changes nothing. -/
theorem register_eq (catalogue : Catalogue W O C T) (type field : String)
    (descriptor : Descriptor W O C T) (world : W) :
    (catalogue.register type field descriptor world).2
        = (((CatalogueCall.register type field descriptor).registration?
              catalogue.registry.schema world).1.elim catalogue catalogue.attach,
          ((CatalogueCall.register type field descriptor).registration?
            catalogue.registry.schema world).2)
      ∧ ((∃ error, (catalogue.register type field descriptor world).1 = .error error)
        ↔ ((CatalogueCall.register type field descriptor).registration?
            catalogue.registry.schema world).1 = none) := by
  unfold Catalogue.register Registry.register registration?
  cases hfield : catalogue.registry.field type field with
  | error error => simp [Registry.field?_eq_none hfield]
  | ok own =>
    simp only [Registry.field_eq_ok_iff.1 hfield]
    obtain ⟨imported, after⟩ := descriptor.importDefinition own world
    cases imported <;> simp [Except.toOption, attach]

/-- How a lookup goes: an answer that is registered, or no such field, or a default that was made
before, or one that is made now. -/
theorem lookUp_cases (catalogue : Catalogue W O C T) (type field : String) :
    (∃ definition, catalogue.registry.registered? type field = some definition
        ∧ catalogue.lookUp type field = (some definition, catalogue))
      ∨ catalogue.registry.registered? type field = none
        ∧ (catalogue.registry.schema.field? type field = none
            ∧ catalogue.lookUp type field = (none, catalogue)
          ∨ ∃ own, catalogue.registry.schema.field? type field = some own
            ∧ ((∃ definition, catalogue.defaults.lookup (type, field) = some definition
                ∧ catalogue.lookUp type field = (some definition, catalogue))
              ∨ catalogue.defaults.lookup (type, field) = none
                ∧ catalogue.lookUp type field
                  = (some ⟨.made catalogue.made, .ofField own⟩,
                    { catalogue with
                      defaults := Entries.put (type, field) ⟨.made catalogue.made, .ofField own⟩
                        catalogue.defaults
                      made := catalogue.made + 1 }))) := by
  unfold lookUp
  cases hregistered : catalogue.registry.registered? type field with
  | some definition => exact .inl ⟨definition, rfl, rfl⟩
  | none =>
    refine .inr ⟨rfl, ?_⟩
    cases hfield : catalogue.registry.field type field with
    | error error => exact .inl ⟨Registry.field?_eq_none hfield, rfl⟩
    | ok own =>
      have hown := Registry.field_eq_ok_iff.1 hfield
      refine .inr ⟨own, hown, ?_⟩
      simp only [Schema.name_of_field? hown]
      cases hmade : catalogue.defaults.lookup (type, field) with
      | some definition => exact .inl ⟨definition, rfl, rfl⟩
      | none => exact .inr ⟨rfl, rfl⟩

/-! ## The stores and the history -/

/-- The catalogue of a schema holds what was registered, and beside it only defaults. -/
structure Holds (schema : Schema) (done : List (Registration W O C T))
    (catalogue : Catalogue W O C T) : Prop where
  isOf : catalogue.registry.schema = schema
  counts : catalogue.registry.registrations = done.length
  registered : ∀ key, catalogue.registry.registered.lookup key = latest done key
  defaults : ∀ type field definition, catalogue.defaults.lookup (type, field) = some definition →
    ∃ own, schema.field? type field = some own ∧ definition.descriptor = .ofField own

/-- Every default that a catalogue has made is in the other one as well. -/
def Extends (catalogue later : Catalogue W O C T) : Prop :=
  ∀ key definition, catalogue.defaults.lookup key = some definition →
    later.defaults.lookup key = some definition

variable {schema : Schema} {done : List (Registration W O C T)} {catalogue : Catalogue W O C T}

/-- A catalogue made of a schema holds its fields, no registration and no default yet. -/
theorem holds_ofSchema (schema : Schema) :
    Holds schema [] (ofSchema schema : Catalogue W O C T) where
  isOf := rfl
  counts := rfl
  registered _ := rfl
  defaults _ _ _ h := nomatch h

/-- Attaching a descriptor records it as the newest registration. -/
theorem Holds.attach (h : Holds schema done catalogue) (registration : Registration W O C T) :
    Holds schema (done ++ [registration]) (catalogue.attach registration) where
  isOf := h.isOf
  counts := by simp [Catalogue.attach, h.counts]
  registered key := by
    rw [Catalogue.attach, Entries.lookup_put_pair, latest_concat, h.counts, h.registered]
    simp only [eq_comm]
  defaults := h.defaults

/-- A default that is made is one of the field it is made for. -/
theorem Holds.make (h : Holds schema done catalogue) {type field : String} {own : FieldDef}
    (hown : schema.field? type field = some own) : Holds schema done { catalogue with
      defaults := Entries.put (type, field) ⟨.made catalogue.made, .ofField own⟩ catalogue.defaults
      made := catalogue.made + 1 } where
  isOf := h.isOf
  counts := h.counts
  registered := h.registered
  defaults type' field' definition hd := by
    rw [Entries.lookup_put_pair] at hd
    split at hd
    case isTrue hkey =>
      cases hkey
      cases hd
      exact ⟨own, hown, rfl⟩
    case isFalse => exact h.defaults type' field' definition hd

/-- A lookup records at most a default for a field the schema has, so the catalogue stays one of the
same registrations. -/
theorem Holds.lookUp (h : Holds schema done catalogue) (type field : String) :
    Holds schema done (catalogue.lookUp type field).2 := by
  rcases lookUp_cases catalogue type field with
    ⟨_, -, he⟩ | ⟨-, ⟨-, he⟩ | ⟨own, hown, ⟨_, -, he⟩ | ⟨-, he⟩⟩⟩ <;> rw [he]
  · exact h
  · exact h
  · exact h
  · exact h.make (h.isOf ▸ hown)

/-- A call adds to the catalogue what it adds to the history. -/
theorem Holds.run (h : Holds schema done catalogue) (call : CatalogueCall W O C T) (world : W) :
    Holds schema (done ++ (call.registration? schema world).1.toList) (call.run catalogue world).1
      ∧ (call.run catalogue world).2 = (call.registration? schema world).2 := by
  cases call with
  | lookUp type field =>
    refine ⟨?_, rfl⟩
    simpa [CatalogueCall.run, registration?] using h.lookUp type field
  | register type field descriptor =>
    have hstep := (register_eq catalogue type field descriptor world).1
    rw [h.isOf] at hstep
    rw [CatalogueCall.run, hstep]
    refine ⟨?_, rfl⟩
    cases ((CatalogueCall.register type field descriptor).registration? schema world).1 with
    | none => simpa using h
    | some registration => simpa using h.attach registration

/-- After any calls the catalogue holds what they registered. -/
theorem holds_runAll (schema : Schema) (calls : List (CatalogueCall W O C T)) (world : W) :
    Holds schema (registrations schema calls world).1 (runAll calls (ofSchema schema) world).1
      ∧ (runAll calls (ofSchema schema) world).2 = (registrations schema calls world).2 := by
  induction calls using List.reverseRecOn with
  | nil => exact ⟨holds_ofSchema schema, rfl⟩
  | append_singleton calls call ih =>
    rw [runAll_concat, registrations_concat, ih.2]
    exact ih.1.run call _

/-- A lookup takes nothing away that the catalogue held before. -/
theorem extends_lookUp (catalogue : Catalogue W O C T) (type field : String) :
    catalogue.Extends (catalogue.lookUp type field).2 := by
  intro key definition hd
  rcases lookUp_cases catalogue type field with
    ⟨_, -, he⟩ | ⟨-, ⟨-, he⟩ | ⟨_, -, ⟨_, -, he⟩ | ⟨hnone, he⟩⟩⟩ <;> rw [he]
  · exact hd
  · exact hd
  · exact hd
  · rw [Entries.lookup_put_pair, if_neg, hd]
    rintro rfl
    cases hnone.symm.trans hd

/-- No call takes anything away that the catalogue held before. -/
theorem extends_run (catalogue : Catalogue W O C T) (call : CatalogueCall W O C T) (world : W) :
    catalogue.Extends (call.run catalogue world).1 := by
  cases call with
  | lookUp type field => exact extends_lookUp catalogue type field
  | register type field descriptor =>
    rw [CatalogueCall.run, (register_eq catalogue type field descriptor world).1]
    cases ((CatalogueCall.register type field descriptor).registration?
      catalogue.registry.schema world).1 <;> exact fun _ _ hd => hd

/-- A default that was made stays, whatever calls follow. -/
theorem extends_runAll (catalogue : Catalogue W O C T) (calls : List (CatalogueCall W O C T))
    (world : W) : catalogue.Extends (runAll calls catalogue world).1 := by
  induction calls using List.reverseRecOn with
  | nil => exact fun _ _ hd => hd
  | append_singleton calls call ih =>
    rw [runAll_concat]
    exact fun key definition hd => extends_run _ call _ key definition (ih key definition hd)

/-! ## Answers -/

namespace Holds

variable (h : Holds schema done catalogue) {type field : String}
include h

/-- What the registry has under a field is what the history of registrations says it should have. -/
theorem registered?_eq :
    catalogue.registry.registered? type field = decisive schema done type field := by
  have hinterfaces : catalogue.registry.interfacesOf type = schema.interfacesOf type :=
    congrArg (Schema.interfacesOf · type) h.isOf
  simp only [Registry.registered?, decisive, hinterfaces, h.registered]

/-- What was registered for a field is the answer, whatever defaults there are. -/
theorem lookUp_of_decisive {definition : Definition W O C T}
    (hd : decisive schema done type field = some definition) :
    (catalogue.lookUp type field).1 = some definition := by
  rw [Catalogue.lookUp, h.registered?_eq, hd]

/-- Where nothing was registered and there is no such field, nothing is the answer. -/
theorem lookUp_of_no_field (hd : decisive schema done type field = none)
    (hf : schema.field? type field = none) : (catalogue.lookUp type field).1 = none := by
  rcases lookUp_cases catalogue type field with ⟨_, hr, -⟩ | ⟨-, ⟨-, he⟩ | ⟨own, hown, -⟩⟩
  · cases (hd.symm.trans h.registered?_eq.symm).trans hr
  · rw [he]
  · rw [h.isOf, hf] at hown
    cases hown

/-- Where nothing was registered for a field, the answer is a default, and it is kept. -/
theorem lookUp_of_field (hd : decisive schema done type field = none) {own : FieldDef}
    (hf : schema.field? type field = some own) : ∃ definition,
      (catalogue.lookUp type field).1 = some definition
        ∧ definition.descriptor = .ofField own
        ∧ (catalogue.lookUp type field).2.defaults.lookup (type, field) = some definition := by
  rcases lookUp_cases catalogue type field with
    ⟨_, hr, -⟩ | ⟨-, ⟨hnone, -⟩ | ⟨own', hown, ⟨definition, hmade, he⟩ | ⟨-, he⟩⟩⟩
  · cases (hd.symm.trans h.registered?_eq.symm).trans hr
  · rw [h.isOf, hf] at hnone
    cases hnone
  · obtain ⟨own', hown', hdescriptor⟩ := h.defaults type field definition hmade
    cases hf.symm.trans hown'
    rw [he]
    exact ⟨definition, rfl, hdescriptor, hmade⟩
  · rw [h.isOf] at hown
    cases hf.symm.trans hown
    rw [he]
    exact ⟨_, rfl, rfl, (Entries.lookup_put_pair ..).trans (if_pos rfl)⟩

/-- The catalogue answers a default again that it holds, unless something was registered. -/
theorem lookUp_of_made {definition : Definition W O C T}
    (hd : decisive schema done type field = none)
    (hm : catalogue.defaults.lookup (type, field) = some definition) :
    (catalogue.lookUp type field).1 = some definition := by
  obtain ⟨own, hown, -⟩ := h.defaults type field definition hm
  rcases lookUp_cases catalogue type field with
    ⟨_, hr, -⟩ | ⟨-, ⟨hnone, -⟩ | ⟨own', -, ⟨definition, hmade, he⟩ | ⟨hmade, -⟩⟩⟩
  · cases (hd.symm.trans h.registered?_eq.symm).trans hr
  · rw [h.isOf, hown] at hnone
    cases hnone
  · cases hm.symm.trans hmade
    rw [he]
  · cases hm.symm.trans hmade

/-- A lookup is answered as before by a catalogue that has the default which it may have made, if
the same was registered. -/
theorem lookUp_of_extends {later : Catalogue W O C T} (hl : Holds schema done later)
    (he : (catalogue.lookUp type field).2.Extends later) :
    (later.lookUp type field).1 = (catalogue.lookUp type field).1 := by
  cases hd : decisive schema done type field with
  | some definition => rw [hl.lookUp_of_decisive hd, h.lookUp_of_decisive hd]
  | none =>
    cases hf : schema.field? type field with
    | none => rw [hl.lookUp_of_no_field hd hf, h.lookUp_of_no_field hd hf]
    | some own =>
      obtain ⟨definition, hanswer, -, hkept⟩ := h.lookUp_of_field hd hf
      rw [hanswer]
      exact hl.lookUp_of_made hd (he _ _ hkept)

/-- A lookup is answered as before after calls that register nothing. -/
theorem lookUp_runAll_of_same {calls : List (CatalogueCall W O C T)} {world : W}
    (hl : Holds schema done (runAll calls (catalogue.lookUp type field).2 world).1) :
    ((runAll calls (catalogue.lookUp type field).2 world).1.lookUp type field).1
      = (catalogue.lookUp type field).1 :=
  h.lookUp_of_extends hl (extends_runAll _ calls world)

/-- A field of the schema has an answer. -/
theorem exists_lookUp {own : FieldDef} (hf : schema.field? type field = some own) :
    ∃ definition, (catalogue.lookUp type field).1 = some definition := by
  cases hd : decisive schema done type field with
  | some definition => exact ⟨definition, h.lookUp_of_decisive hd⟩
  | none =>
    obtain ⟨definition, hanswer, -⟩ := h.lookUp_of_field hd hf
    exact ⟨definition, hanswer⟩

/-- A configuration changes nothing about what the catalogue holds. -/
theorem withConfiguration {configuration : Configuration} {configured : Catalogue W O C T}
    (hc : catalogue.withConfiguration configuration = .ok configured) :
    Holds schema done configured := by
  rw [Catalogue.withConfiguration, Registry.withConfiguration] at hc
  cases hvalid : configuration.validate with
  | error error =>
    rw [hvalid] at hc
    cases hc
  | ok valid =>
    rw [hvalid] at hc
    cases hc
    exact ⟨h.isOf, h.counts, h.registered, h.defaults⟩

end Holds

/-- What a catalogue answers after any calls. A registration that fails changes nothing. A lookup is
answered by the latest registration for the type, or else by the latest one for the first interface
of the type that has one, or else by a default with the name, the type and the arguments of the
field, if the type has such a field. The answer stays the same one, whatever calls follow, as long
as they register nothing. -/
theorem lookUp_runAll (schema : Schema) (calls : List (CatalogueCall W O C T)) (world : W) :
    let done := (registrations schema calls world).1
    let reached := runAll calls (ofSchema schema) world
    (∀ type field descriptor error after,
        reached.1.register type field descriptor reached.2 = (.error error, after) →
          after.1 = reached.1
            ∧ (registrations schema (calls ++ [.register type field descriptor]) world).1 = done)
      ∧ ∀ type field,
        (∀ definition, latest done (type, field) = some definition →
          (reached.1.lookUp type field).1 = some definition)
        ∧ (latest done (type, field) = none →
          (∀ before interface after definition,
            schema.interfacesOf type = before ++ interface :: after →
              (∀ other ∈ before, latest done (other, field) = none) →
                latest done (interface, field) = some definition →
                  (reached.1.lookUp type field).1 = some definition)
          ∧ ((∀ interface ∈ schema.interfacesOf type, latest done (interface, field) = none) →
            (∀ own, schema.field? type field = some own →
              ∃ definition, (reached.1.lookUp type field).1 = some definition
                ∧ definition.descriptor.IsDefault field own)
            ∧ (schema.field? type field = none → (reached.1.lookUp type field).1 = none)))
        ∧ ∀ more, (registrations schema (calls ++ .lookUp type field :: more) world).1 = done →
          ((runAll (calls ++ .lookUp type field :: more) (ofSchema schema) world).1.lookUp
            type field).1 = (reached.1.lookUp type field).1 := by
  intro done reached
  obtain ⟨hholds, hworld⟩ := holds_runAll schema calls world
  refine ⟨?refused, fun type field => ⟨?own, fun hown => ⟨?interface, ?default⟩, ?again⟩⟩
  case refused =>
    rintro type field descriptor error ⟨after, _⟩ hr
    obtain ⟨hstep, hfails⟩ := register_eq reached.1 type field descriptor reached.2
    have hnone := hfails.1 ⟨error, by rw [hr]⟩
    rw [hr, hnone] at hstep
    refine ⟨(Prod.mk.inj hstep).1, ?_⟩
    rw [hholds.isOf, hworld] at hnone
    rw [registrations_concat, hnone]
    exact List.append_nil _
  case own =>
    intro definition hlatest
    exact hholds.lookUp_of_decisive (by rw [decisive, List.findSome?_cons, hlatest])
  case interface =>
    intro before interface after definition hinterfaces hbefore hlatest
    refine hholds.lookUp_of_decisive ?_
    rw [decisive, List.findSome?_cons, hown, hinterfaces, List.findSome?_append,
      List.findSome?_eq_none_iff.2 hbefore, Option.none_or, List.findSome?_cons, hlatest]
  case default =>
    intro hinterfaces
    have hnone : decisive schema done type field = none := by
      rw [decisive, List.findSome?_cons, hown]
      exact List.findSome?_eq_none_iff.2 hinterfaces
    refine ⟨fun own hf => ?_, hholds.lookUp_of_no_field hnone⟩
    obtain ⟨definition, hanswer, hdescriptor, -⟩ := hholds.lookUp_of_field hnone hf
    refine ⟨definition, hanswer, ?_⟩
    rw [hdescriptor, ← Schema.name_of_field? hf]
    exact Descriptor.isDefault_ofField own
  case again =>
    intro more hsame
    have hlater := (holds_runAll schema (calls ++ .lookUp type field :: more) world).1
    rw [hsame] at hlater
    rw [runAll_append] at hlater ⊢
    exact hholds.lookUp_runAll_of_same hlater

end Catalogue

end QueryEngine
