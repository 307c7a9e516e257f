import QueryEngine.Schema.Registry

/-!
# Catalogues

A registry together with the default definitions that lookups have made so far. A field for which no
descriptor is registered gets its default the first time it is looked up; from then on the catalogue
answers that one, until a descriptor is registered for the field.
-/

namespace QueryEngine

/-- A registry with the default definitions that were made for its fields. -/
structure Catalogue (W O C T : Type) where
  registry : Registry W O C T
  /-- The default definitions, by type and field. -/
  defaults : List ((String × String) × Definition W O C T) := []
  /-- How many default definitions were made. -/
  made : Nat := 0

variable {W O C T : Type}

/-- The definition that is registered for a field of a type, or else for the field of the first
interface that the type declares and that has one. -/
def Registry.registered? (registry : Registry W O C T) (type field : String) :
    Option (Definition W O C T) :=
  (type :: registry.interfacesOf type).findSome? fun declaring =>
    registry.registered.lookup (declaring, field)

namespace Catalogue

/-- The catalogue of a schema for which nothing is registered. -/
def ofSchema (schema : Schema) : Catalogue W O C T :=
  { registry := { schema } }

/-- Puts a configuration in place, if no limit of it is zero. -/
def withConfiguration (catalogue : Catalogue W O C T) (configuration : Configuration) :
    Except ConfigurationError (Catalogue W O C T) :=
  (catalogue.registry.withConfiguration configuration).map fun registry =>
    { catalogue with registry }

/-- Attaches a descriptor to a field. A failure leaves the catalogue as it was. -/
def register (catalogue : Catalogue W O C T) (type field : String)
    (descriptor : Descriptor W O C T) (world : W) :
    Except ConfigurationError Unit × Catalogue W O C T × W :=
  match catalogue.registry.register type field descriptor world with
  | (.error error, world) => (.error error, catalogue, world)
  | (.ok registry, world) => (.ok (), { catalogue with registry }, world)

/-- The definition that resolves a field on objects of a type, if the type has the field. A default
is made once. -/
def lookUp (catalogue : Catalogue W O C T) (type field : String) :
    Option (Definition W O C T) × Catalogue W O C T :=
  match catalogue.registry.registered? type field with
  | some definition => (some definition, catalogue)
  | none =>
    match catalogue.registry.field type field with
    | .error _ => (none, catalogue)
    | .ok own =>
      match catalogue.defaults.lookup (type, own.name) with
      | some definition => (some definition, catalogue)
      | none =>
        let definition := ⟨.made catalogue.made, .ofField own⟩
        (some definition, { catalogue with
          defaults := Entries.put (type, own.name) definition catalogue.defaults
          made := catalogue.made + 1 })

end Catalogue

end QueryEngine
