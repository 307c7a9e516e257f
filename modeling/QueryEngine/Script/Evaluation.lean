import QueryEngine.Script.World

/-!
# Evaluation of recipes

`evaluate` runs a recipe in a scope: the object that the field is resolved on, the arguments and the
marker. `host` is the host whose objects, collections and tasks are made by recipes; each is the
other's part, so both are built over an evaluator, and `evaluate` gives its steps an evaluator with
less fuel. The fuel bounds how deep recipes refer to each other; a recipe that uses it up counts as
unreadable.
-/

namespace QueryEngine.Script

/-- What a recipe is evaluated in. -/
structure Scope where
  source : Option (Source World Thing Members) := none
  arguments : Fields := []
  marker : Option Marker := none

/-- What a recipe does: it may ask for the page of a connection, change the world and fail. -/
abbrev Effect := ExceptT FieldError (Action World Thing)

/-- What evaluates recipes. -/
abbrev Evaluator := Scope → Recipe → Effect Value

namespace Effect

variable {α : Type}

/-- An effect that only changes the world. -/
def ofWorld (change : World → α × World) : Effect α :=
  ExceptT.mk (Action.ofWorld fun world =>
    let (result, world) := change world
    (.ok result, world))

/-- An effect that only looks at the world. -/
def read (look : World → α) : Effect α :=
  ofWorld fun world => (look world, world)

/-- An effect that answers nothing. -/
def modify (change : World → World) : Effect Unit :=
  ofWorld fun world => ((), change world)

/-- The effect of something that fails by itself. -/
def ofExcept (result : Except FieldError α) : Effect α :=
  ExceptT.mk (pure result)

/-- Asks for the items of the connection's page. -/
def page : Effect (List (Item Thing)) :=
  ExceptT.mk Action.page

/-- The effect of an unreadable recipe. -/
def unreadable [Inhabited α] : Effect α := do
  modify World.fail
  return default

/-- Runs an effect where there is no connection. -/
def run (effect : Effect α) (world : World) : Except FieldError α × World :=
  Action.run (ExceptT.run effect) world

end Effect

namespace Task

/-- What happens when a task with a timing is polled: it is ready if `isReady` is answered. -/
def tick (timing : Timing) (isStarted : Bool) (world : World) : Timing × Bool × World :=
  let log (event : String) (world : World) : World :=
    match timing.event with
    | some name => world.log (event ++ ":" ++ name)
    | none => world
  if isStarted then
    if timing.polls < 0 then (timing, false, world)
    else
      ({ timing with polls := timing.polls - 1 }, decide (timing.polls ≤ 1), log "resume" world)
  else (timing, timing.polls == 0, log "force" world)

/-- The computation of a lookup in the memo. -/
def computation (evaluate : Evaluator) (key : String) (body : Recipe) (arguments : Fields)
    (polls : Nat) : Computation World FieldError Json where
  polls := polls
  start := World.log ("init:" ++ key)
  resume := id
  finish world :=
    match (evaluate { arguments } body).run world with
    | (.ok (.value json), world) => (.ok json, world)
    | (.ok _, world) => (.ok .null, world.fail)
    | (.error error, world) => (.error error, world)

/-- Polls a task. -/
def poll (evaluate : Evaluator) (task : Task) (world : World) :
    Progress Task (Outcome Thing Members Task) × World :=
  match task with
  | .recipe body arguments marker timing isStarted =>
    match tick timing isStarted world with
    | (_, true, world) =>
      let (outcome, world) := (evaluate { arguments, marker } body).run world
      (.ready outcome, world)
    | (timing, false, world) => (.waiting (.recipe body arguments marker timing true), world)
  | .settled outcome timing isStarted =>
    match tick timing isStarted world with
    | (_, true, world) => (.ready outcome, world)
    | (timing, false, world) => (.waiting (.settled outcome timing true), world)
  | .memo key body arguments polls phase =>
    match Memo.poll memoPlace key (computation evaluate key body arguments polls) phase world with
    | (.ready result, world) => (.ready (result.map .value), world)
    | (.waiting phase, world) => (.waiting (.memo key body arguments polls phase), world)

end Task

/-- The host of a script. -/
def host (evaluate : Evaluator) : Host World Thing Members Task where
  typeName
    | .scripted type _ _ => type
    | .json type _ => type
  lookup thing key world :=
    match thing with
    | .scripted _ _ lookups =>
      match lookups.lookup key with
      | some body =>
        let scope := { source := some (.object thing.toObject) }
        let (outcome, world) := (evaluate scope body).run world
        (outcome.toOption, world)
      | none => (none, world)
    | .json _ fields => ((fields.lookup key).map .value, world)
  call thing method arguments world :=
    match thing with
    | .scripted _ getters _ =>
      match getters.lookup method with
      | some body =>
        let scope := { source := some (.object thing.toObject), arguments }
        let (outcome, world) := (evaluate scope body).run world
        (some outcome, world)
      | none => (none, world)
    | .json _ fields => (some (.ok (.value ((fields.lookup method).getD .null))), world)
  length members := members.items.length
  element? members position := (members.items[position]?).join
  elements members := members.items.filterMap id
  capability members method arguments world :=
    match members.capabilities.lookup method with
    | some body =>
      let (outcome, world) := (evaluate { arguments } body).run world
      (some outcome, world)
    | none => (none, world)
  poll := Task.poll evaluate
  cancelled := World.isCancelled

/-- The value of a recipe that counts something. -/
def ofNat (n : Nat) : Value := .value (.ofNat n)

/-- Evaluates a view of a connection. -/
def viewConnection (evaluate : Evaluator) (arguments : Fields)
    (connection : Connection World Thing Members) : ConnectionView → Effect Value
  | .length => return ofNat (connection.backing.length (host evaluate))
  | .isEmpty => return .value (.bool (connection.backing.length (host evaluate) == 0))
  | .elements =>
    return .list ((connection.backing.elements (host evaluate)).map Element.toFieldValue)
  | .element index =>
    match connection.backing.element? (host evaluate) index with
    | some element => return element.toFieldValue
    | none => return .null
  | .capability method => do
    match ← Effect.ofWorld (connection.backing.capability (host evaluate) method arguments) with
    | some outcome => Effect.ofExcept outcome
    | none => return .null
  | .arguments => return .value (.object connection.arguments)
  | .positions => do
    let items ← Effect.page
    return .value (.array (items.map fun item => .ofNat item.position))
  | .inspect => do
    let items ← Effect.page
    return .text (Text.bracketed (items.map (host evaluate).inspectItem))

/-- The value of a view of an edge. -/
def viewEdge (evaluate : Evaluator) (item : Item Thing) : EdgeView → Value
  | .position => ofNat item.position
  | .cursor => .text (Cursor.encode item.position)
  | .node => item.element.toFieldValue
  | .inspect => .text ((host evaluate).inspectElement item.element)

/-- The object that a recipe is evaluated on; without one the recipe fails. -/
def object (scope : Scope) : Effect (Source World Thing Members) :=
  match scope.source with
  | some source => return source
  | none => throw (.new "no object")

/-- Evaluates an item of a collection. -/
def evaluateItem (evaluate : Evaluator) (scope : Scope) :
    Option Recipe → Effect (Option (Element Thing))
  | none => return none
  | some body => do
    match element? (← evaluate scope body) with
    | some element => return some element
    | none =>
      Effect.modify World.fail
      return none

/-- Evaluates recipes one after the other. -/
def evaluateSequence (evaluate : Evaluator) (scope : Scope) : List Recipe → Value → Effect Value
  | [], last => return last
  | body :: rest, _ => do evaluateSequence evaluate scope rest (← evaluate scope body)

/-- Evaluates a recipe, and those that it refers to with the given evaluator. -/
def perform (script : List (String × Recipe)) (evaluate : Evaluator) (scope : Scope) :
    Recipe → Effect Value
  | .value json => return .value json
  | .object type getters lookups => return .object (.host (.scripted type getters lookups))
  | .jsonObject type fields => return .object (.json type fields)
  | .list items => return .list (← items.mapM (evaluate scope))
  | .collection items capabilities => do
    return .collection { items := ← items.mapM (evaluateItem evaluate scope), capabilities }
  | .lazy body timing => return .lazy (.recipe body scope.arguments none timing false)
  | .delay body timing => do
    let outcome ← ExceptT.lift (ExceptT.run (evaluate scope body))
    return .lazy (.settled outcome timing false)
  | .deferred marker => return .deferred marker
  | .payload => return .value ((scope.marker.map Marker.payload).getD .null)
  | .fail error => throw error
  | .argument name => return .value ((scope.arguments.lookup name).getD .null)
  | .arguments => return .value (.object scope.arguments)
  | .variable name =>
    Effect.read fun world => .value ((world.context.vars.lookup name).getD .null)
  | .call method arguments => do
    let source ← object scope
    match ← source.call (host evaluate) method (arguments.getD scope.arguments) with
    | some outcome => Effect.ofExcept outcome
    | none => return .null
  | .lookup key => do
    let source ← object scope
    return (← source.lookup (host evaluate) key).getD .null
  | .typeName => return .text ((← object scope).typeName (host evaluate))
  | .sequence recipes => evaluateSequence evaluate scope recipes .null
  | .log event => do
    Effect.modify (World.log event)
    return .null
  | .cancel => do
    Effect.modify (World.update Context.cancel)
    return .null
  | .isCancelled => Effect.read fun world => .value (.bool world.context.cancelled)
  | .get key kind => do
    let held ← Effect.read fun world => world.context.get key kind
    return .value ((← Effect.ofExcept held).getD .null)
  | .insert key kind json => do
    let held ← Effect.ofWorld fun world =>
      let (held, context) := world.context.insert key kind json
      (held, { world with context })
    return .value ((← Effect.ofExcept held).getD .null)
  | .count key =>
    Effect.ofWorld fun world =>
      let (n, context) := world.context.count key
      (ofNat n, { world with context })
  | .memo key body polls => return .lazy (.memo key body scope.arguments polls .fresh)
  | .named name =>
    match script.lookup name with
    | some body => evaluate scope body
    | none => Effect.unreadable
  | .edge view =>
    match scope.source with
    | some (.object (.edge _ item)) => return viewEdge evaluate item view
    | _ => return .null
  | .connection view =>
    match scope.source with
    | some (.connection connection) =>
      viewConnection evaluate scope.arguments connection view
    | _ => return .null
  | .unreadable => Effect.unreadable

/-- Evaluates a recipe of a script. -/
def evaluate (script : List (String × Recipe)) : Nat → Evaluator
  | 0 => fun _ _ => Effect.unreadable
  | fuel + 1 => perform script (evaluate script fuel)

end QueryEngine.Script
