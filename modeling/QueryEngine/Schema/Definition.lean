import QueryEngine.Error
import QueryEngine.Language.Literal

/-!
# Schema definitions

The types of a schema in definition order. `isSubtype` and `possibleTypes` say which object types
an abstract type stands for, `field?` finds the definition of a field, the meta fields included.
-/

namespace QueryEngine

/-- An argument of a field, or a field of an input type. -/
structure ArgumentDef where
  name : String
  type : TypeRef
  default? : Option Literal := none
deriving Inhabited

/-- A field of an object or interface type. -/
structure FieldDef where
  name : String
  type : TypeRef
  arguments : List ArgumentDef := []
deriving Inhabited

/-- What a type is made of. -/
inductive TypeBody where
  | scalar
  | object (interfaces : List String) (fields : List FieldDef)
  | interface (interfaces : List String) (fields : List FieldDef)
  | union (members : List String)
  | enumeration (values : List String)
  | input (fields : List ArgumentDef)
deriving Inhabited

namespace TypeBody

/-- The fields that can be selected on the type, meta fields apart. -/
def fields : TypeBody → List FieldDef
  | .object _ fields | .interface _ fields => fields
  | _ => []

/-- The interfaces that the type itself declares, in the order of declaration. -/
def interfaces : TypeBody → List String
  | .object interfaces _ | .interface interfaces _ => interfaces
  | _ => []

/-- Whether values of the type are objects of that very type. -/
def isObject : TypeBody → Bool
  | .object _ _ => true
  | _ => false

/-- Whether a selection set can be on the type. -/
def isComposite : TypeBody → Bool
  | .object _ _ | .interface _ _ | .union _ => true
  | _ => false

end TypeBody

/-- A named type. -/
structure TypeDef where
  name : String
  body : TypeBody
deriving Inhabited

/-- The types of a schema, in definition order, and the root types of its operations. -/
structure Schema where
  types : List TypeDef
  query : String
  mutation : Option String
  subscription : Option String
deriving Inhabited

namespace Schema

/-- The type of that name. -/
def type? (schema : Schema) (name : String) : Option TypeDef :=
  schema.types.find? (·.name == name)

/-- The root type of a kind of operation. -/
def root? (schema : Schema) : OperationKind → Option String
  | .query => some schema.query
  | .mutation => schema.mutation
  | .subscription => schema.subscription

/-- The field that names the type of an object. -/
def typenameField : FieldDef :=
  { name := "__typename", type := .nonNullNamed "String" }

/-- The fields that only the root type of queries has beside its own. -/
def introspectionFields : List FieldDef :=
  [{ name := "__schema", type := .nonNullNamed "__Schema" },
   { name := "__type", type := .named "__Type"
     arguments := [{ name := "name", type := .nonNullNamed "String" }] }]

/-- The definition of a field on a type: one of the type's own fields, or a meta field. -/
def field? (schema : Schema) (type field : String) : Option FieldDef := do
  let definition ← schema.type? type
  match definition.body.fields.find? (·.name == field) with
  | some own => pure own
  | none =>
    if field == typenameField.name && definition.body.isComposite then pure typenameField
    else if type == schema.query then introspectionFields.find? (·.name == field)
    else none

/-- Whether `type` is declared to be one of the types that the abstract type stands for. -/
def isSubtype (schema : Schema) (abstract type : String) : Bool :=
  match schema.type? abstract with
  | some ⟨_, .interface _ _⟩ =>
    match schema.type? type with
    | some definition => definition.body.interfaces.contains abstract
    | none => false
  | some ⟨_, .union members⟩ => members.contains type
  | _ => false

/-- Whether objects of type `concrete` satisfy the type condition `condition`. -/
def satisfies (schema : Schema) (concrete condition : String) : Bool :=
  concrete == condition || schema.isSubtype condition concrete

/-- The object types that a value of a type can have, in definition order; none for a leaf type. -/
def possibleTypes (schema : Schema) (type : String) : List String :=
  match schema.type? type with
  | some ⟨name, .object _ _⟩ => [name]
  | some ⟨_, .interface _ _⟩ | some ⟨_, .union _⟩ =>
    (schema.types.filter fun definition =>
      definition.body.isObject && schema.isSubtype type definition.name).map TypeDef.name
  | _ => []

end Schema

end QueryEngine
