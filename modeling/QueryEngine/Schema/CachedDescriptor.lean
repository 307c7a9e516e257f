import QueryEngine.Schema.Registry

/-!
# Descriptors that keep their defaults

A descriptor beside a cell for its default arguments. The cell is empty until the defaults are first
read, and from then on reads answer what is in it. Declaring an argument, be it in a builder or when
a field's definition is taken over, empties the cell again.
-/

namespace QueryEngine

/-- A descriptor with the cell for its default arguments. -/
structure CachedDescriptor (W O C T : Type) where
  descriptor : Descriptor W O C T := {}
  /-- The default arguments, once they were read. -/
  defaults? : Option Fields := none

variable {W O C T : Type}

namespace CachedDescriptor

/-- Changes something else than the arguments. -/
def update (cached : CachedDescriptor W O C T)
    (change : Descriptor W O C T → Descriptor W O C T) : CachedDescriptor W O C T :=
  { cached with descriptor := change cached.descriptor }

/-- Declares an argument, in place of one of the same name. -/
def declareArgument (cached : CachedDescriptor W O C T) (name : String)
    (declaration : ArgumentDeclaration) : CachedDescriptor W O C T where
  descriptor := cached.descriptor.declareArgument name declaration
  defaults? := none

/-- The declared arguments that have a default, computed at the first read. -/
def defaultArguments (cached : CachedDescriptor W O C T) : Fields × CachedDescriptor W O C T :=
  match cached.defaults? with
  | some defaults => (defaults, cached)
  | none =>
    let defaults := cached.descriptor.defaultArguments
    (defaults, { cached with defaults? := some defaults })

/-- The arguments of one selection of the field. -/
def coerceArguments (cached : CachedDescriptor W O C T) (literals : List (String × Literal))
    (vars : Fields) : Fields × CachedDescriptor W O C T :=
  let (defaults, cached) := cached.defaultArguments
  (Descriptor.overlay defaults literals vars, cached)

/-- Declares the arguments of a field's definition that the descriptor does not declare itself. -/
def importArguments (cached : CachedDescriptor W O C T) (arguments : List ArgumentDef) :
    CachedDescriptor W O C T :=
  arguments.foldl (fun cached argument =>
    if (cached.descriptor.arguments.lookup argument.name).isSome then cached
    else cached.declareArgument argument.name
      ⟨argument.type, argument.default?.bind (Literal.toJson? [])⟩) cached

/-- Takes name, type and arguments over from a field's definition. -/
def importDefinition (cached : CachedDescriptor W O C T) (field : FieldDef) (world : W) :
    Except ConfigurationError (CachedDescriptor W O C T) × W :=
  match cached.descriptor.setName field.name with
  | .error error => (.error error, world)
  | .ok descriptor =>
    match descriptor.returnType.bind field.type world with
    | (.error error, _, world) => (.error error, world)
    | (.ok _, cell, world) =>
      (.ok ({ cached with descriptor := { descriptor with returnType := cell } }.importArguments
        field.arguments), world)

end CachedDescriptor

end QueryEngine
