import QueryEngine.Connection.State
import QueryEngine.Field.Binding
import QueryEngine.Language.Literal

/-!
# Field descriptors

How one field of a schema is resolved: by a resolver of its own, or by the standard strategy, which
indexes the object by a lookup key if one is set and else invokes a getter, the field's name unless
another one is set. A descriptor also declares arguments with defaults, a cost, and for a
connection field the operations on its pages.
-/

namespace QueryEngine

/-- A resolver: what it does on an object with arguments. -/
abbrev Resolver (W O C T : Type) := Source W O C → Fields → Action W O (Outcome O C T)

/-- Turns a marker into a task. -/
abbrev LazyResolver (W T : Type) := Marker → Fields → W → T × W

/-- How a field is resolved. -/
inductive Strategy (W O C T : Type) where
  | standard (lookupKey method : Option String)
  | custom (resolver : Resolver W O C T)

/-- The cost of a field, given the cost of its sub-selection. -/
inductive Cost (W : Type) where
  /-- Added to the cost of the sub-selection. -/
  | constant (cost : Float)
  | function (cost : W → Fields → Float → Float)

/-- A declared argument. -/
structure ArgumentDeclaration where
  type : TypeRef
  default? : Option Json
deriving Inhabited

/-- The definition of how a field is resolved. -/
structure Descriptor (W O C T : Type) where
  name : Option String := none
  returnType : TypeBinding W := .unbound
  strategy : Strategy W O C T := .standard none none
  lazyResolver : Option (LazyResolver W T) := none
  cost : Cost W := .constant 1.0
  arguments : List (String × ArgumentDeclaration) := []
  connection : Option (List (PageOperation W O)) := none

variable {W O C T : Type}

namespace Cost

/-- Doubles in costs have no exponent while their point lies within the first sixteen digits or at
most three zeros before them. Only a negative exponent has a sign, and of two decimals as near the
one farther from zero is taken. -/
def layout : Double.Layout := ⟨-3, 16, .away, false⟩

/-- The cost of a field. -/
def evaluate (cost : Cost W) (world : W) (arguments : Fields) (child : Float) : Float :=
  match cost with
  | .constant cost => cost + child
  | .function cost => cost world arguments child

/-- The text that shows a cost. -/
def inspect : Cost W → String
  | .constant cost => Text.applied "Constant" (layout.text cost.toBits)
  | .function _ => "Function"

end Cost

/-- The text that shows a declared argument. -/
def ArgumentDeclaration.inspect (declaration : ArgumentDeclaration) : String :=
  Text.record "ArgumentDeclaration"
    [("ty", declaration.type.inspect),
     ("default_value", Text.optional (declaration.default?.map Json.inspect))]

namespace Descriptor

/-- Names the descriptor, unless it has another name. -/
def setName (descriptor : Descriptor W O C T) (name : String) :
    Except ConfigurationError (Descriptor W O C T) :=
  match descriptor.name with
  | none => .ok { descriptor with name := some name }
  | some current => if current = name then .ok descriptor else .error (.fieldRenamed current name)

/-- The lookup key of the standard strategy. -/
def lookupKey (descriptor : Descriptor W O C T) : Option String :=
  match descriptor.strategy with
  | .standard lookupKey _ => lookupKey
  | .custom _ => none

/-- The getter of the standard strategy, if it is not the field's name. -/
def method (descriptor : Descriptor W O C T) : Option String :=
  match descriptor.strategy with
  | .standard _ method => method
  | .custom _ => none

/-- Whether the field has a resolver of its own. -/
def isCustom (descriptor : Descriptor W O C T) : Bool :=
  match descriptor.strategy with
  | .standard _ _ => false
  | .custom _ => true

/-- Resolves the field by indexing the object. -/
def withLookupKey (descriptor : Descriptor W O C T) (key : String) : Descriptor W O C T :=
  { descriptor with strategy := .standard (some key) descriptor.method }

/-- Resolves the field by a getter. -/
def withMethod (descriptor : Descriptor W O C T) (method : String) : Descriptor W O C T :=
  { descriptor with strategy := .standard descriptor.lookupKey (some method) }

/-- Resolves the field by a resolver of its own, instead of any lookup key or getter. -/
def withResolver (descriptor : Descriptor W O C T) (resolver : Resolver W O C T) :
    Descriptor W O C T :=
  { descriptor with strategy := .custom resolver }

/-- Declares an argument, in place of one of the same name. -/
def declareArgument (descriptor : Descriptor W O C T) (name : String)
    (declaration : ArgumentDeclaration) : Descriptor W O C T :=
  { descriptor with arguments := Entries.put name declaration descriptor.arguments }

/-- The declared arguments that have a default, in the order of declaration. -/
def defaultArguments (descriptor : Descriptor W O C T) : Fields :=
  descriptor.arguments.filterMap fun (name, declaration) =>
    declaration.default?.map fun value => (name, value)

/-- Lays the values of literals over defaults. A literal without a value keeps the default. -/
def overlay (defaults : Fields) (literals : List (String × Literal)) (vars : Fields) :
    Fields :=
  literals.foldl (fun arguments (name, literal) =>
    match literal.toJson? vars with
    | some value => Entries.put name value arguments
    | none => arguments) defaults

/-- The arguments of one selection of the field. -/
def coerceArguments (descriptor : Descriptor W O C T) (literals : List (String × Literal))
    (vars : Fields) : Fields :=
  overlay descriptor.defaultArguments literals vars

/-- Resolves the field on an object. -/
def resolve (host : Host W O C T) (descriptor : Descriptor W O C T) (source : Source W O C)
    (arguments : Fields) : Action W O (Outcome O C T) :=
  match descriptor.strategy with
  | .custom resolver => resolver source arguments
  | .standard (some key) _ => do
    return .ok ((← source.lookup host key).getD .null)
  | .standard none method =>
    match method.or descriptor.name with
    | none => pure (.error (.new "field descriptor has no name"))
    | some method => do
      return (← source.call host method arguments).getD
        (.error (.unsupported (source.typeName host) method))

/-- The text that shows the descriptor. -/
def inspect (descriptor : Descriptor W O C T) : String :=
  Text.record "FieldDescriptor"
    [("name", Text.optional (descriptor.name.map Text.quoted)),
     ("return_type", descriptor.returnType.inspect),
     ("lookup_key", Text.optional (descriptor.lookupKey.map Text.quoted)),
     ("method", Text.optional (descriptor.method.map Text.quoted)),
     ("custom_resolver", if descriptor.isCustom then "true" else "false"),
     ("arguments", Text.braced
       (descriptor.arguments.map fun (name, declaration) =>
         (Text.quoted name, declaration.inspect)))]

/-- The arguments of the connection's operations, in the order of declaration. -/
def connectionArguments (descriptor : Descriptor W O C T) : Option (List String) :=
  descriptor.connection.map fun operations => operations.map PageOperation.argument

end Descriptor

end QueryEngine
