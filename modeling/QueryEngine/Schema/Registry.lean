import QueryEngine.Configuration
import QueryEngine.Field.Descriptor
import QueryEngine.Schema.Definition

/-!
# Registries

A schema with the descriptors that resolve its fields. `register` attaches a descriptor to a field
and takes name, type and arguments over from the field's definition; `definition?` finds the one
that resolves a field of an object type: registered for the type itself, or for an interface that
the type declares, or the default one, which invokes the getter of the field's name. A definition
is the same as another exactly if both come from one registration, or are the default of one field.
-/

namespace QueryEngine

/-- Where a definition comes from. -/
inductive DefinitionId where
  /-- The registration of that number. -/
  | registered (number : Nat)
  /-- No registration: the default of a field. -/
  | default (type field : String)
  /-- No registration: the default that a catalogue made as that number. -/
  | made (number : Nat)
deriving DecidableEq, Inhabited, Repr

/-- A descriptor with its origin. -/
structure Definition (W O C T : Type) where
  id : DefinitionId
  descriptor : Descriptor W O C T

/-- A schema, the descriptors registered for its fields and the resolvers of deferred types. -/
structure Registry (W O C T : Type) where
  schema : Schema
  registered : List ((String × String) × Definition W O C T) := []
  /-- How many registrations there were. -/
  registrations : Nat := 0
  /-- The types of payloads that may be deferred, each with its resolver if it has one. -/
  deferred : List (String × Option (LazyResolver W T)) := []
  configuration : Configuration := {}

variable {W O C T : Type}

namespace Descriptor

/-- Declares the arguments of a field's definition that the descriptor does not declare itself. -/
def importArguments (descriptor : Descriptor W O C T) (arguments : List ArgumentDef) :
    Descriptor W O C T :=
  arguments.foldl (fun descriptor argument =>
    if (descriptor.arguments.lookup argument.name).isSome then descriptor
    else descriptor.declareArgument argument.name
      ⟨argument.type, argument.default?.bind (Literal.toJson? [])⟩) descriptor

/-- Takes name, type and arguments over from a field's definition. -/
def importDefinition (descriptor : Descriptor W O C T) (field : FieldDef) (world : W) :
    Except ConfigurationError (Descriptor W O C T) × W :=
  match descriptor.setName field.name with
  | .error error => (.error error, world)
  | .ok descriptor =>
    match descriptor.returnType.bind field.type world with
    | (.error error, _, world) => (.error error, world)
    | (.ok _, cell, world) =>
      (.ok ({ descriptor with returnType := cell }.importArguments field.arguments), world)

/-- The descriptor of a field for which none is registered. -/
def ofField (field : FieldDef) : Descriptor W O C T :=
  { name := some field.name, returnType := .bound field.type : Descriptor W O C T }.importArguments
    field.arguments

end Descriptor

namespace Registry

/-- Puts a configuration in place, if no limit of it is zero. -/
def withConfiguration (registry : Registry W O C T) (configuration : Configuration) :
    Except ConfigurationError (Registry W O C T) :=
  configuration.validate.map fun configuration => { registry with configuration }

/-- The definition of a field in the schema. -/
def field (registry : Registry W O C T) (type field : String) :
    Except ConfigurationError FieldDef :=
  match registry.schema.type? type with
  | none => .error (.unknownType type)
  | some _ =>
    match registry.schema.field? type field with
    | none => .error (.unknownField type field)
    | some definition => .ok definition

/-- Attaches a descriptor to a field. A failure leaves the registry as it was. -/
def register (registry : Registry W O C T) (type field : String)
    (descriptor : Descriptor W O C T) (world : W) :
    Except ConfigurationError (Registry W O C T) × W :=
  match registry.field type field with
  | .error error => (.error error, world)
  | .ok definition =>
    match descriptor.importDefinition definition world with
    | (.error error, world) => (.error error, world)
    | (.ok descriptor, world) =>
      let entry := ⟨.registered registry.registrations, descriptor⟩
      (.ok { registry with
        registered := Entries.put (type, field) entry registry.registered
        registrations := registry.registrations + 1 }, world)

/-- Marks a type of payloads as one that may be deferred, with its resolver if it has one. -/
def registerDeferred (registry : Registry W O C T) (type : String)
    (resolver : Option (LazyResolver W T)) : Registry W O C T :=
  { registry with deferred := Entries.put type resolver registry.deferred }

/-- The interfaces that an object type declares, in the order of declaration. -/
def interfacesOf (registry : Registry W O C T) (type : String) : List String :=
  match registry.schema.type? type with
  | some ⟨_, .object interfaces _⟩ => interfaces
  | _ => []

/-- The definition that resolves a field on objects of a type, if the type has the field. -/
def definition? (registry : Registry W O C T) (type field : String) :
    Option (Definition W O C T) :=
  let registered (type : String) := registry.registered.lookup (type, field)
  match (type :: registry.interfacesOf type).findSome? registered with
  | some definition => some definition
  | none =>
    match registry.field type field with
    | .ok definition => some ⟨.default type field, .ofField definition⟩
    | .error _ => none

/-- The resolver for a marker that a field's resolver answered. -/
def lazyResolver (registry : Registry W O C T) (descriptor : Descriptor W O C T)
    (marker : Marker) : Except FieldError (LazyResolver W T) :=
  match registry.deferred.lookup marker.type with
  | none => .error (.new ("'" ++ marker.type ++ "' is not a registered deferred type"))
  | some resolver =>
    match descriptor.lazyResolver.or resolver with
    | some resolver => .ok resolver
    | none =>
      .error (.new ("no lazy resolver for deferred type '" ++ marker.type ++ "'"))

/-- The connection that a collection is the value of, for a field of the given type. -/
def connection (registry : Registry W O C T) (type : String)
    (operations : List (PageOperation W O)) (arguments : Fields) (backing : Backing C) :
    Connection W O C :=
  let inner (field : String) := (registry.schema.field? type field).map (·.type.inner)
  { type, backing, operations, arguments
    edgeType := inner "edges"
    pageInfoType := inner "pageInfo"
    maxPageSize := registry.configuration.maxPageSize }

end Registry

end QueryEngine
