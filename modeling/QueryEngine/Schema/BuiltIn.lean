import QueryEngine.Schema.Definition

/-!
# Built-in types

The types that every schema has without defining them: the scalars it needs and the object types
that describe a schema. Nothing special resolves the latter.
-/

namespace QueryEngine.Schema

/-- A named type. -/
private def nullable (name : String) : TypeRef := .named name

/-- A named type without null. -/
private def required (name : String) : TypeRef := .nonNullNamed name

/-- A list without null items, nullable itself. -/
private def listOf (name : String) : TypeRef := .list (.nonNullNamed name)

/-- A list without null items and without null. -/
private def requiredList (name : String) : TypeRef := .nonNullList (.nonNullNamed name)

/-- A field without arguments. -/
private def plain (name : String) (type : TypeRef) : FieldDef := { name, type }

/-- A field that shows deprecated members on demand. -/
private def filtered (name : String) (type : TypeRef) : FieldDef :=
  { name, type
    arguments := [{ name := "includeDeprecated", type := .named "Boolean"
                    default? := some (.bool false) }] }

/-- An object type without interfaces. -/
private def describing (name : String) (fields : List FieldDef) : TypeDef :=
  ⟨name, .object [] fields⟩

/-- The types that describe a schema. -/
def introspectionTypes : List TypeDef :=
  [describing "__Schema"
    [plain "description" (nullable "String"), plain "types" (requiredList "__Type"),
     plain "queryType" (required "__Type"), plain "mutationType" (nullable "__Type"),
     plain "subscriptionType" (nullable "__Type"),
     plain "directives" (requiredList "__Directive")],
   describing "__Type"
    [plain "kind" (required "__TypeKind"), plain "name" (nullable "String"),
     plain "description" (nullable "String"), filtered "fields" (listOf "__Field"),
     plain "interfaces" (listOf "__Type"), plain "possibleTypes" (listOf "__Type"),
     filtered "enumValues" (listOf "__EnumValue"),
     filtered "inputFields" (listOf "__InputValue"), plain "ofType" (nullable "__Type"),
     plain "specifiedByURL" (nullable "String")],
   ⟨"__TypeKind", .enumeration
    ["SCALAR", "OBJECT", "INTERFACE", "UNION", "ENUM", "INPUT_OBJECT", "LIST", "NON_NULL"]⟩,
   describing "__Field"
    [plain "name" (required "String"), plain "description" (nullable "String"),
     filtered "args" (requiredList "__InputValue"), plain "type" (required "__Type"),
     plain "isDeprecated" (required "Boolean"), plain "deprecationReason" (nullable "String")],
   describing "__InputValue"
    [plain "name" (required "String"), plain "description" (nullable "String"),
     plain "type" (required "__Type"), plain "defaultValue" (nullable "String"),
     plain "isDeprecated" (required "Boolean"), plain "deprecationReason" (nullable "String")],
   describing "__EnumValue"
    [plain "name" (required "String"), plain "description" (nullable "String"),
     plain "isDeprecated" (required "Boolean"), plain "deprecationReason" (nullable "String")],
   describing "__Directive"
    [plain "name" (required "String"), plain "description" (nullable "String"),
     plain "isRepeatable" (required "Boolean"),
     plain "locations" (requiredList "__DirectiveLocation"),
     filtered "args" (requiredList "__InputValue")],
   ⟨"__DirectiveLocation", .enumeration
    ["QUERY", "MUTATION", "SUBSCRIPTION", "FIELD", "FRAGMENT_DEFINITION", "FRAGMENT_SPREAD",
     "INLINE_FRAGMENT", "VARIABLE_DEFINITION", "SCHEMA", "SCALAR", "OBJECT", "FIELD_DEFINITION",
     "ARGUMENT_DEFINITION", "INTERFACE", "UNION", "ENUM", "ENUM_VALUE", "INPUT_OBJECT",
     "INPUT_FIELD_DEFINITION"]⟩]

/-- The scalars that the description of a schema uses. -/
def alwaysScalars : List String := ["String", "Boolean"]

/-- The scalars that a schema has if it refers to them. -/
def onDemandScalars : List String := ["Int", "Float", "ID"]

/-- The built-in types of a schema that refers to the given types. -/
def builtIn (referred : List String) : List TypeDef :=
  introspectionTypes
    ++ (alwaysScalars ++ onDemandScalars.filter referred.contains).map fun name =>
      ⟨name, .scalar⟩

end QueryEngine.Schema
