import QueryEngine.Json
import QueryEngine.Language.TypeRef

/-!
# Errors

Four kinds of failure, each a cause with one function for its wording. A `ConfigurationError`
comes up while a schema is put together, a `BuildError` while an operation is turned into a
selection tree, a `FieldError` is raised by a resolver and belongs to one field, and an
`ExecutionError` ends a whole execution.
-/

namespace QueryEngine

/-- The kinds of root operation. -/
inductive OperationKind where
  | query
  | mutation
  | subscription
deriving DecidableEq, Inhabited, Repr

/-- The name of the kind. -/
def OperationKind.text : OperationKind → String
  | .query => "Query"
  | .mutation => "Mutation"
  | .subscription => "Subscription"

/-- The options that must not be zero. -/
inductive Limit where
  | recursionLimit
  | maxDrainSteps
  | maxPageSize
deriving DecidableEq, Repr

/-- The place of the option in a configuration. -/
def Limit.text : Limit → String
  | .recursionLimit => "execution.recursion_limit"
  | .maxDrainSteps => "execution.max_drain_steps"
  | .maxPageSize => "connections.max_page_size"

/-- Why a schema with its descriptors, or a configuration, cannot be put together. -/
inductive ConfigurationError where
  | fieldRenamed (current requested : String)
  | typeRebound (bound requested : TypeRef)
  | unknownType (name : String)
  | unknownField (type field : String)
  | invalidSchema
  | unreadableYaml
  | zeroLimit (limit : Limit)
deriving DecidableEq, Repr

/-- The message for a configuration error. -/
def ConfigurationError.message : ConfigurationError → String
  | .fieldRenamed current requested =>
    "field '" ++ current ++ "' is already named and cannot be renamed to '" ++ requested ++ "'"
  | .typeRebound bound requested =>
    "return type is already bound to '" ++ bound.text ++ "' and cannot be rebound to '"
      ++ requested.text ++ "'"
  | .unknownType name => "unknown type '" ++ name ++ "'"
  | .unknownField type field => "type '" ++ type ++ "' has no field '" ++ field ++ "'"
  | .invalidSchema => "invalid schema"
  | .unreadableYaml => "failed to parse yaml"
  | .zeroLimit limit => limit.text ++ ": must be greater than 0"

/-- Why an operation has no selection tree. -/
inductive BuildError where
  | recursionLimitExceeded
  | unknownOperation (name : String)
  | missingRootType (kind : OperationKind)
deriving DecidableEq, Repr

namespace BuildError

/-- The message for a build error. -/
def message : BuildError → String
  | .recursionLimitExceeded => "selection processing recursion limit exceeded"
  | .unknownOperation name => "Unknown operation named \"" ++ name ++ "\""
  | .missingRootType kind => "the schema has no root type for " ++ kind.text ++ " operations"

/-- The code that the response carries for a build error. -/
def code : BuildError → String
  | .recursionLimitExceeded => "RECURSION_LIMIT_EXCEEDED"
  | .unknownOperation _ => "GRAPHQL_UNKNOWN_OPERATION_NAME"
  | .missingRootType _ => "GRAPHQL_VALIDATION_FAILED"

end BuildError

/-- An error of one field: a message and extensions. -/
structure FieldError where
  message : String
  extensions : Fields
deriving Inhabited, Repr

/-! ## The codes that the engine gives to field errors -/

namespace FieldError.Code

/-- A field could not be resolved. -/
def fieldResolution : String := "FIELD_RESOLUTION_ERROR"

/-- A task that was forced has failed. -/
def deferredResolution : String := "DEFERRED_RESOLUTION_ERROR"

/-- An object does not support what the field asks of it. -/
def missingCapability : String := "MISSING_CAPABILITY"

/-- A null is where the type has none. -/
def nullValue : String := "NULL_VALUE"

/-- A value does not fit the field. -/
def invalidValue : String := "INVALID_VALUE"

end FieldError.Code

namespace FieldError

/-- An error without extensions. -/
def new (message : String) : FieldError := ⟨message, []⟩

/-- Adds an extension, in place of one with the same key. -/
def withExtension (error : FieldError) (key : String) (value : Json) : FieldError :=
  { error with extensions := Entries.put key value error.extensions }

/-- Sets the code unless the error has one. -/
def withCode (error : FieldError) (code : String) : FieldError :=
  { error with extensions := Entries.putIfAbsent "code" (.string code) error.extensions }

/-- The error of a target that does not support an operation. -/
def unsupported (target operation : String) : FieldError :=
  (new ("'" ++ target ++ "' does not support '" ++ operation ++ "'")).withCode
    Code.missingCapability

/-- An error about a value that a field or an operation cannot take. -/
def invalid (message : String) : FieldError :=
  (new message).withCode Code.invalidValue

/-- The code, if it is a string. -/
def code? (error : FieldError) : Option String :=
  (error.extensions.lookup "code").bind Json.asString?

/-- Whether the error says that an operation is not supported. -/
def isMissingCapability (error : FieldError) : Bool :=
  error.code? == some Code.missingCapability

end FieldError

/-- Why an execution stopped before every value was there. -/
inductive ExecutionError where
  | cancelled
  | drainLimitExceeded (limit : Nat)
deriving DecidableEq, Repr

namespace ExecutionError

/-- The message for an execution error. -/
def message : ExecutionError → String
  | .cancelled => "execution was cancelled before every deferred value was resolved"
  | .drainLimitExceeded limit =>
    "execution exceeded the limit of " ++ toString limit ++ " drain steps"

/-- The extensions that the response carries for an execution error. -/
def extensions : ExecutionError → Fields
  | .cancelled => [("code", .string "EXECUTION_CANCELLED")]
  | .drainLimitExceeded limit =>
    [("limit", .ofNat limit), ("code", .string "DRAIN_LIMIT_EXCEEDED")]

end ExecutionError

end QueryEngine
