import QueryEngine.Schema.BuiltIn

/-!
# Valid schemas

The rules that the types of a schema keep: every type is made of something, names are distinct and
not reserved, references lead to types that can stand there, a type that declares an interface
keeps what the interface promises, and a value of an input type is finite. `Schema.isValid` checks
them for the types that a schema adds to the built-in ones.
-/

namespace QueryEngine

/-- Whether a type may stand where another one is promised: it may rule out null, and `isSubtype`
says which named types stand for others. -/
def TypeRef.refines (isSubtype : String → String → Bool) : TypeRef → TypeRef → Bool
  | .nonNullNamed type, .nonNullNamed promised | .nonNullNamed type, .named promised
  | .named type, .named promised => type == promised || isSubtype promised type
  | .nonNullList item, .nonNullList promised | .nonNullList item, .list promised
  | .list item, .list promised => item.refines isSubtype promised
  | _, _ => false

/-- Whether an argument has to be given. -/
def ArgumentDef.isRequired (argument : ArgumentDef) : Bool :=
  argument.type.isNonNull && argument.default?.isNone

namespace TypeBody

/-- Whether an argument can be of the type. -/
def isInput : TypeBody → Bool
  | .scalar | .enumeration _ | .input _ => true
  | .object _ _ | .interface _ _ | .union _ => false

/-- Whether a field can be of the type. -/
def isOutput : TypeBody → Bool
  | .input _ => false
  | _ => true

/-- The fields of an input type. -/
def inputFields : TypeBody → List ArgumentDef
  | .input fields => fields
  | _ => []

/-- The names of the parts that a body is made of, those of different kinds apart. -/
def partNames : TypeBody → List (List String)
  | .scalar => []
  | .object interfaces fields | .interface interfaces fields =>
    interfaces :: fields.map FieldDef.name :: fields.map (·.arguments.map ArgumentDef.name)
  | .union members => [members]
  | .enumeration values => [values]
  | .input fields => [fields.map ArgumentDef.name]

/-- Whether a body has no part at all. -/
def isEmpty : TypeBody → Bool
  | .scalar => false
  | .object _ fields | .interface _ fields => fields.isEmpty
  | .union members => members.isEmpty
  | .enumeration values => values.isEmpty
  | .input fields => fields.isEmpty

/-- The input types of which every value of an input type holds one. -/
def demands (body : TypeBody) : List String :=
  body.inputFields.filterMap fun field =>
    match field.type with
    | .nonNullNamed name => some name
    | _ => none

end TypeBody

namespace Schema

/-- Whether a name is kept for the types that describe a schema. -/
def isReserved (name : String) : Bool :=
  name.toList.take 2 == ['_', '_']

/-- Whether the names of a type are distinct and free. -/
def hasOwnNames (definition : TypeDef) : Bool :=
  let parts := definition.body.partNames
  ! isReserved definition.name && ! (alwaysScalars ++ onDemandScalars).contains definition.name
    && parts.all fun names => decide names.Nodup && ! names.any isReserved

/-- Whether a name is that of a type with a property. -/
def names (schema : Schema) (property : TypeBody → Bool) (name : String) : Bool :=
  (schema.type? name).any fun definition => property definition.body

/-- Whether the types of arguments are input types. -/
def takesInput (schema : Schema) (arguments : List ArgumentDef) : Bool :=
  arguments.all fun argument => schema.names TypeBody.isInput argument.type.inner

/-- Whether the references of a type lead to types that can stand there. -/
def hasReferences (schema : Schema) (definition : TypeDef) : Bool :=
  match definition.body with
  | .scalar | .enumeration _ => true
  | .object _ fields | .interface _ fields =>
    fields.all fun field =>
      schema.names TypeBody.isOutput field.type.inner && schema.takesInput field.arguments
  | .union members => members.all (schema.names TypeBody.isObject)
  | .input fields => schema.takesInput fields

/-- Whether a field keeps what a field of an interface promises: it has the promised arguments, no
other argument is required, and its type refines the promised one. -/
def keepsField (schema : Schema) (field promised : FieldDef) : Bool :=
  field.type.refines schema.isSubtype promised.type
    && (promised.arguments.all fun argument =>
      field.arguments.any fun own => own.name == argument.name && own.type == argument.type)
    && field.arguments.all fun own =>
      ! own.isRequired || promised.arguments.any (·.name == own.name)

/-- Whether a type keeps what an interface promises: it declares the interfaces of the interface
and has its fields. -/
def keepsInterface (schema : Schema) (definition : TypeDef) (interface : String) : Bool :=
  match schema.type? interface with
  | some ⟨_, .interface interfaces fields⟩ =>
    interface != definition.name
      && interfaces.all definition.body.interfaces.contains
      && fields.all fun promised =>
        definition.body.fields.any fun field =>
          field.name == promised.name && schema.keepsField field promised
  | _ => false

/-- The types that some types demand, over so many steps. -/
def demandedBy (schema : Schema) : Nat → List String → List String
  | 0, found => found
  | steps + 1, found =>
    let more := found.flatMap fun name =>
      ((schema.type? name).map fun definition => definition.body.demands).getD []
    let fresh := more.eraseDups.filter fun name => ! found.contains name
    if fresh.isEmpty then found else schema.demandedBy steps (found ++ fresh)

/-- Whether an input type has finite values: none of them holds another one of the type. -/
def isFinite (schema : Schema) (definition : TypeDef) : Bool :=
  ! (schema.demandedBy schema.types.length definition.body.demands).contains definition.name

/-- Whether a type that is not built in keeps the rules. -/
def admits (schema : Schema) (definition : TypeDef) : Bool :=
  ! definition.body.isEmpty
    && hasOwnNames definition
    && schema.hasReferences definition
    && definition.body.interfaces.all (schema.keepsInterface definition)
    && schema.isFinite definition

/-- Whether a schema is valid that adds the given types to the built-in ones. -/
def isValid (schema : Schema) (own : List TypeDef) : Bool :=
  decide (own.map TypeDef.name).Nodup && own.all schema.admits

end Schema

end QueryEngine
