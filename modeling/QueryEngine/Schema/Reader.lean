import QueryEngine.Language.Grammar
import QueryEngine.Schema.Validity

/-!
# Reading schemas

A schema text is a sequence of definitions and extensions, in any order. `Schema.ofText` reads it,
adds each extension to the type it extends, puts the built-in types in front, finds the root types
of operations and checks that the types keep the rules of `Schema.isValid`.
-/

namespace QueryEngine

/-- A definition of a schema text. -/
inductive SchemaItem where
  | type (definition : TypeDef)
  | extension (definition : TypeDef)
  | roots (entries : List (OperationKind × String))
  | rootsExtension (entries : List (OperationKind × String))

namespace Grammar

/-- Skips the text that describes the next definition. -/
def description : Grammar Unit := do
  match ← peek with
  | some (.string _) => let _ ← next; return ()
  | _ => return ()

/-- Any number of directives, all of them among the given ones. -/
def directivesAmong (known : List String) : Grammar Bool := do
  let directives ← directives
  if directives.all fun directive => known.contains directive.name then
    return ! directives.isEmpty
  else failure

/-- The directives of a field, an argument or a value of an enum type. -/
def memberDirectives : Grammar Unit := do
  let _ ← directivesAmong ["deprecated"]

/-- A value without variables. -/
def constant : Grammar Literal := do
  let value ← value
  if value.isConstant then return value else failure

/-- An argument definition or a field of an input type. -/
def argumentDef : Grammar ArgumentDef := do
  description
  let name ← name
  punctuator ":"
  let type ← typeRef
  let default? ← if ← optionalPunctuator "=" then pure (some (← constant)) else pure none
  memberDirectives
  return { name, type, default? }

/-- A field definition. -/
def fieldDef : Grammar FieldDef := do
  description
  let name ← name
  let arguments ← optionalEnclosed "(" ")" argumentDef
  punctuator ":"
  let type ← typeRef
  memberDirectives
  return { name, type, arguments }

/-- Names with a separator between them. -/
def separated (separator : String) : Nat → Grammar (List String)
  | 0 => failure
  | fuel + 1 => do
    let first ← name
    if ← optionalPunctuator separator then return first :: (← separated separator fuel)
    else return [first]

/-- Names behind an opening token, with a separator between them and perhaps one in front. -/
def nameList (separator : String) : Grammar (List String) := do
  let _ ← optionalPunctuator separator
  separated separator ((← remaining) + 1)

/-- The interfaces that a type declares. -/
def interfaces : Grammar (List String) := do
  if ← atName "implements" then
    keyword "implements"
    nameList "&"
  else return []

/-- A value of an enum type. -/
def enumValue : Grammar String := do
  description
  let name ← name
  memberDirectives
  if ["true", "false", "null"].contains name then failure else return name

/-- What a type is made of, behind its name. The flag says whether it has directives, as a scalar
may. -/
def typeBody (kind : String) : Grammar (TypeBody × Bool) := do
  if kind == "scalar" then
    return (.scalar, ← directivesAmong ["specifiedBy"])
  else if kind == "type" then
    return (.object (← interfaces) (← optionalEnclosed "\x7b" "\x7d" fieldDef), false)
  else if kind == "interface" then
    return (.interface (← interfaces) (← optionalEnclosed "\x7b" "\x7d" fieldDef), false)
  else if kind == "union" then
    let members ← if ← optionalPunctuator "=" then nameList "|" else pure []
    return (.union members, false)
  else if kind == "enum" then
    return (.enumeration (← optionalEnclosed "\x7b" "\x7d" enumValue), false)
  else if kind == "input" then
    return (.input (← optionalEnclosed "\x7b" "\x7d" argumentDef), false)
  else failure

/-- A root type behind its kind. -/
def rootEntry : Grammar (OperationKind × String) := do
  let kind ← (operationKind? (← name) : Option OperationKind)
  punctuator ":"
  return (kind, ← name)

/-- A definition of a schema. An extension extends something. -/
def schemaItem : Grammar SchemaItem := do
  description
  let word ← name
  let (extending, kind) ←
    if word == "extend" then pure (true, ← name) else pure (false, word)
  if kind == "schema" then
    let entries ← enclosed "\x7b" "\x7d" rootEntry
    return if extending then .rootsExtension entries else .roots entries
  else
    let name ← name
    let (body, directed) ← typeBody kind
    if ! extending then return .type ⟨name, body⟩
    else if directed || body.partNames.any (! ·.isEmpty) then return .extension ⟨name, body⟩
    else failure

/-- The definitions up to the end. -/
def schemaItems : Nat → Grammar (List SchemaItem)
  | 0 => failure
  | fuel + 1 => do
    if (← remaining) = 0 then return []
    else
      let first ← schemaItem
      return first :: (← schemaItems fuel)

end Grammar

namespace TypeBody

/-- A body with the parts of an extension of the same kind behind its own. -/
def extend? : TypeBody → TypeBody → Option TypeBody
  | .scalar, .scalar => some .scalar
  | .object interfaces fields, .object moreInterfaces moreFields =>
    some (.object (interfaces ++ moreInterfaces) (fields ++ moreFields))
  | .interface interfaces fields, .interface moreInterfaces moreFields =>
    some (.interface (interfaces ++ moreInterfaces) (fields ++ moreFields))
  | .union members, .union more => some (.union (members ++ more))
  | .enumeration values, .enumeration more => some (.enumeration (values ++ more))
  | .input fields, .input more => some (.input (fields ++ more))
  | _, _ => none

/-- The names of the types that a body refers to. -/
def references : TypeBody → List String
  | .scalar | .enumeration _ => []
  | .object interfaces fields | .interface interfaces fields =>
    interfaces ++ fields.flatMap fun field =>
      field.type.inner :: field.arguments.map (·.type.inner)
  | .union members => members
  | .input fields => fields.map (·.type.inner)

end TypeBody

namespace Schema

/-- The types with an extension added to the one it extends; none if there is no such type. -/
def extendTypes? (extension : TypeDef) : List TypeDef → Option (List TypeDef)
  | [] => none
  | definition :: rest =>
    if definition.name == extension.name then
      (definition.body.extend? extension.body).map fun body =>
        { definition with body } :: rest
    else (extendTypes? extension rest).map (definition :: ·)

/-- Whether a name is that of an object type. -/
def namesObject (types : List TypeDef) (name : String) : Bool :=
  types.any fun definition => definition.name == name && definition.body.isObject

/-- The root types: those that a schema names, or else the object types with the names of the kinds
of operations. They are object types, one at most for a kind; `more` adds to some. -/
def roots? (types : List TypeDef) (named : List (List (OperationKind × String)))
    (more : List (OperationKind × String)) : Option (List (OperationKind × String)) := do
  let roots ← match named with
    | [] =>
      let kinds : List OperationKind := [.query, .mutation, .subscription]
      some ((kinds.filter fun kind => namesObject types kind.text).map fun kind =>
        (kind, kind.text))
    | [roots] => some roots
    | _ => none
  let all := roots ++ more
  if ! roots.isEmpty && decide (all.map Prod.fst).Nodup
      && all.all (fun root => namesObject types root.2) then pure all
  else none

/-- The schema that definitions make. -/
def ofItems? (items : List SchemaItem) : Option Schema := do
  let own := items.filterMap fun
    | .type definition => some definition
    | _ => none
  let extensions := items.filterMap fun
    | .extension definition => some definition
    | _ => none
  let named := items.filterMap fun
    | .roots entries => some entries
    | _ => none
  let more := items.flatMap fun
    | .rootsExtension entries => entries
    | _ => []
  let defined ← extensions.foldlM (fun types extension => extendTypes? extension types) own
  let types := builtIn (defined.flatMap (·.body.references)) ++ defined
  let roots ← roots? types named more
  let schema : Schema :=
    { types
      query := ← roots.lookup .query
      mutation := roots.lookup .mutation
      subscription := roots.lookup .subscription }
  if schema.isValid defined then pure schema else none

/-- The schema that a text defines. -/
def ofText (text : String) : Except ConfigurationError Schema :=
  let schema? : Option Schema := do
    let tokens ← Token.scan? text
    let (items, _) ← (Grammar.schemaItems (tokens.length + 1)).run tokens
    ofItems? items
  match schema? with
  | some schema => .ok schema
  | none => .error .invalidSchema

/-- The types of the fields of a schema. -/
def typing (schema : Schema) : Grammar.Typing :=
  fun type field => (schema.field? type field).map FieldDef.type

/-- The document that a text writes for this schema. -/
def document? (schema : Schema) (text : String) : Option Document :=
  Document.ofText? schema.typing schema.root? text

end Schema

end QueryEngine
