import QueryEngine.Error
import QueryEngine.Language.Literal

/-!
# Executable documents

The operations and fragments of a document. Every field, inline fragment and fragment spread of a
document has a number of its own, by which two occurrences of one node are told from two nodes that
look alike. A field also carries what the document's schema says about it: the type that its
selection set is on and its own type.
-/

namespace QueryEngine

/-- A directive on a selection. -/
structure Directive where
  name : String
  arguments : List (String × Literal)
deriving Inhabited

/-- A field selection without its sub-selection. -/
structure Field where
  id : Nat
  alias? : Option String
  name : String
  arguments : List (String × Literal)
  directives : List Directive
  /-- The type that the surrounding selection set is on. -/
  owner : String
  type : TypeRef
deriving Inhabited

/-- The key of the field in the response. -/
def Field.key (field : Field) : String :=
  field.alias?.getD field.name

/-- An inline fragment without its selections. -/
structure InlineFragment where
  id : Nat
  condition? : Option String
  directives : List Directive
deriving Inhabited

/-- A spread of a named fragment. -/
structure FragmentSpread where
  id : Nat
  fragment : String
  directives : List Directive
deriving Inhabited

/-- A member of a selection set. -/
inductive Selection where
  | field (field : Field) (selections : List Selection)
  | inlineFragment (fragment : InlineFragment) (selections : List Selection)
  | fragmentSpread (spread : FragmentSpread)
deriving Inhabited

/-- A named fragment. -/
structure Fragment where
  name : String
  condition : String
  selections : List Selection
deriving Inhabited

/-- An operation. -/
structure Operation where
  kind : OperationKind
  name? : Option String
  selections : List Selection
deriving Inhabited

/-- A document: its operations and its fragments. -/
structure Document where
  operations : List Operation
  fragments : List Fragment
deriving Inhabited

namespace Document

/-- The operation of that name; without a name, the only operation of the document. -/
def operation? (document : Document) : Option String → Option Operation
  | some name => document.operations.find? fun operation => operation.name? == some name
  | none =>
    match document.operations with
    | [operation] => some operation
    | _ => none

/-- The fragment of that name. -/
def fragment? (document : Document) (name : String) : Option Fragment :=
  document.fragments.find? (·.name == name)

end Document

end QueryEngine
