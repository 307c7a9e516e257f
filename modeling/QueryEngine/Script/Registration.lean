import QueryEngine.Language.Grammar
import QueryEngine.Schema.CachedDescriptor
import QueryEngine.Script.Evaluation

/-!
# Scripted descriptors

Descriptors described by data: a list of steps, applied in order to a fresh descriptor. A step sets
one property, and those that hold code (resolvers, costs, operations on pages, the thunk of a type)
are recipes or one of a few fixed rules. Something that cannot be read breaks the world.
-/

namespace QueryEngine.Script

/-- What a scripted operation makes of the items of a page. -/
inductive PageRule where
  | reverse
  /-- Keeps the items at even positions. -/
  | even
  /-- Puts each item twice in a row. -/
  | twice
  /-- Makes the position of each item its index. -/
  | renumber
  /-- Keeps the whole numbers that are not below the argument. -/
  | atLeast
  /-- Cancels the execution. -/
  | cancel
  | fail
  /-- Fails as unsupported. -/
  | missing
deriving DecidableEq, Repr

namespace PageRule

/-- The rule of that name. -/
def ofText? (word : String) : Option PageRule :=
  match word with
  | "reverse" => some .reverse
  | "even" => some .even
  | "dup" => some .twice
  | "renumber" => some .renumber
  | "min" => some .atLeast
  | "cancel" => some .cancel
  | "fail" => some .fail
  | "missing" => some .missing
  | _ => none

/-- Whether a member is a whole number and not below a bound. -/
def isAtLeast (bound : Int) : Element Thing → Bool
  | .value json => json.asSigned?.any (bound ≤ ·)
  | .object _ => false

/-- Applies the rule for an argument with a value. -/
def apply (rule : PageRule) (argument : String) (value : Json) (items : List (Item Thing))
    (world : World) : Page Thing × World :=
  match rule with
  | .reverse => (.ok items.reverse, world)
  | .even => (.ok (items.filter (·.position % 2 == 0)), world)
  | .twice => (.ok (items.flatMap fun item => [item, item]), world)
  | .renumber =>
    (.ok (items.zipIdx.map fun (item, index) => { item with position := index }), world)
  | .atLeast =>
    let bound := value.asSigned?.getD (Width.least 64)
    (.ok (items.filter fun item => isAtLeast bound item.element), world)
  | .cancel => (.ok items, world.update Context.cancel)
  | .fail => (.error (.new (value.asString?.getD "failed")), world)
  | .missing => (.error (.unsupported "pipeline" argument), world)

/-- The operation of a connection field that applies the rule. -/
def operation (rule : PageRule) (argument : String) : PageOperation World Thing where
  argument := argument
  run items value world :=
    rule.apply argument value items
      (world.log ("op:" ++ argument ++ ":" ++ toString items.length))

end PageRule

/-- The operations that come with the engine, by name. -/
def slice? (word : String) : Option Slice :=
  match word with
  | "first" => some .first
  | "last" => some .last
  | "after" => some .after
  | "before" => some .before
  | _ => none

/-- Adds the operation that a value describes to others. -/
def addOperation? (operations : List (PageOperation World Thing)) (value : Json) :
    Option (List (PageOperation World Thing)) :=
  match value with
  | .string "relay" => some (Slice.relay.map Slice.operation)
  | .string word => (slice? word).map fun slice => operations ++ [slice.operation]
  | value => do
    let argument ← Recipe.text? value.fields "arg"
    let rule ← PageRule.ofText? (← Recipe.text? value.fields "kind")
    some (operations ++ [rule.operation argument])

/-- The cell for a type that a value describes. -/
def typeBinding? : Json → Option (TypeBinding World)
  | .string "unbound" | .string "default" => some .unbound
  | .object [("concrete", .string text)] => (TypeRef.ofText? text).map .bound
  | .object [("thunk", .string text)] =>
    (TypeRef.ofText? text).map fun type => .deferred fun world => (type, world.log "thunk")
  | _ => none

/-- The double that a value is, if it is a number. -/
def float? : Json → Option Float
  | .number number => some number.toFloat
  | _ => none

/-- The function of a cost that is no constant: the cost that an operand and the cost of the
sub-selection give. -/
def costFunction? (word : String) : Option (Float → Float → Float) :=
  match word with
  | "mul" => some fun operand child => operand * child
  | "add" => some fun operand child => operand + child
  | "sub" => some fun operand child => child - operand
  | "max" => some fun operand child => if child < operand then operand else child
  | _ => none

/-- The operand of a cost: an argument, or else a variable, or else a default. -/
def costOperand (options arguments : Fields) (world : World) : Float :=
  let found :=
    match Recipe.text? options "arg", Recipe.text? options "var" with
    | some name, _ => arguments.lookup name
    | none, some name => world.context.vars.lookup name
    | none, none => none
  (found.bind float?).getD (((options.lookup "default").bind float?).getD 0)

/-- The cost that a value describes. -/
def cost? (value : Json) : Option (Cost World) :=
  match (value.get? "const").bind float? with
  | some constant => some (.constant constant)
  | none => do
    let combine ← costFunction? (← Recipe.text? value.fields "fn")
    some (.function fun world arguments child =>
      combine (costOperand value.fields arguments world) child)

/-- A resolver that evaluates a recipe on the object. -/
def resolver (evaluate : Evaluator) (body : Recipe) : Resolver World Thing Members Task :=
  fun source arguments => ExceptT.run (evaluate { source := some source, arguments } body)

/-- A lazy resolver whose task evaluates a recipe with the marker. -/
def lazyResolver (body : Recipe) : LazyResolver World Task :=
  fun marker arguments world =>
    (.recipe body arguments (some marker) {} false, world.log ("bind:" ++ marker.type))

/-- The argument that a step declares. -/
def argument? (step : Json) : Option (String × ArgumentDeclaration) :=
  match step.items with
  | .string "argument" :: .string name :: .string text :: rest =>
    (TypeRef.ofText? text).map fun type => (name, ⟨type, rest.head?⟩)
  | _ => none

/-- Applies the step that a value describes. -/
def applyStep? (evaluate : Evaluator) (descriptor : FieldDescriptor) (step : Json) :
    Option FieldDescriptor :=
  match step.items with
  | [.string "named", .string name] => some { name := some name }
  | [.string "lookup_key", .string key] => some (descriptor.withLookupKey key)
  | [.string "method", .string method] => some (descriptor.withMethod method)
  | [.string "resolver", body] =>
    some (descriptor.withResolver (resolver evaluate (Recipe.ofJson body)))
  | [.string "lazy_resolver", body] =>
    some { descriptor with lazyResolver := some (lazyResolver (Recipe.ofJson body)) }
  | [.string "cost", value] => (cost? value).map fun cost => { descriptor with cost }
  | [.string "return_type", value] =>
    (typeBinding? value).map fun returnType => { descriptor with returnType }
  | [.string "connection", .array values] =>
    (values.foldlM addOperation? []).map fun operations =>
      { descriptor with connection := some operations }
  | _ =>
    (argument? step).map fun (name, declaration) => descriptor.declareArgument name declaration

/-- Applies a step; one that cannot be read breaks the world. -/
def applyStep (evaluate : Evaluator) (step : Json) (descriptor : FieldDescriptor)
    (world : World) : FieldDescriptor × World :=
  match applyStep? evaluate descriptor step with
  | some descriptor => (descriptor, world)
  | none => (descriptor, world.fail)

/-- The descriptor that a list of steps describes. -/
def descriptor (evaluate : Evaluator) (steps : List Json) (world : World) :
    FieldDescriptor × World :=
  steps.foldl (fun (descriptor, world) step => applyStep evaluate step descriptor world)
    ({}, world)

/-- Applies a step to a descriptor that keeps its defaults; one that cannot be read breaks the
world. -/
def applyCachedStep (evaluate : Evaluator) (step : Json)
    (cached : CachedDescriptor World Thing Members Task) (world : World) :
    CachedDescriptor World Thing Members Task × World :=
  match argument? step, step.items with
  | some (name, declaration), _ => (cached.declareArgument name declaration, world)
  | none, [.string "named", .string name] => ({ descriptor := { name := some name } }, world)
  | none, _ =>
    match applyStep? evaluate cached.descriptor step with
    | some descriptor => (cached.update fun _ => descriptor, world)
    | none => (cached, world.fail)

/-- The descriptor that a list of steps describes, with an empty cell for its defaults. -/
def cachedDescriptor (evaluate : Evaluator) (steps : List Json) (world : World) :
    CachedDescriptor World Thing Members Task × World :=
  steps.foldl (fun (cached, world) step => applyCachedStep evaluate step cached world) ({}, world)

/-- A registry of scripted descriptors. -/
abbrev ScriptRegistry := Registry World Thing Members Task

/-- Registers the descriptor for a field that a value describes: type, field and steps. -/
def register (evaluate : Evaluator) (registry : ScriptRegistry) (value : Json) (world : World) :
    Except ConfigurationError ScriptRegistry × World :=
  match value.items with
  | .string type :: .string field :: rest =>
    let steps := ((rest.head?).getD .null).items
    let (descriptor, world) := descriptor evaluate steps world
    registry.register type field descriptor world
  | _ => (.ok registry, world.fail)

/-- Registers descriptors in order, up to the first failure. -/
def registerAll (evaluate : Evaluator) :
    List Json → ScriptRegistry → World → Except ConfigurationError ScriptRegistry × World
  | [], registry, world => (.ok registry, world)
  | value :: rest, registry, world =>
    match register evaluate registry value world with
    | (.ok registry, world) => registerAll evaluate rest registry world
    | (.error error, world) => (.error error, world)

/-- Marks types of payloads as deferred: each is named and has the recipe of its resolver, or null
if it has no resolver of its own. -/
def registerDeferred (registry : ScriptRegistry) (entries : Fields) : Option ScriptRegistry :=
  entries.foldlM (fun registry (word, body) =>
    (payloadType? word).map fun type =>
      registry.registerDeferred type
        (if body.isNull then none else some (lazyResolver (Recipe.ofJson body)))) registry

end QueryEngine.Script
