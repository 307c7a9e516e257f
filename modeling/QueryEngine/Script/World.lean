import QueryEngine.Field.Descriptor
import QueryEngine.Script.Recipe

/-!
# The world of a script

What recipes change: the context of the execution and the list of events. The handles of a scripted
host are plain data: an object and a collection hold the recipes of their getters, a task holds
what it has still to do.
-/

namespace QueryEngine.Script

/-- What recipes change. -/
structure World where
  context : Context
  /-- The events so far, the last one first. -/
  events : List String := []
  /-- Whether an unreadable recipe was evaluated. Nothing that happens afterwards counts. -/
  isBroken : Bool := false
deriving Inhabited

/-- An object of a script. -/
inductive Thing where
  | scripted (type : String) (getters lookups : List (String × Recipe))
  /-- The entries of a JSON object, as in `Object.json`. -/
  | json (type : String) (fields : Fields)
deriving Inhabited

/-- A collection of a script. -/
structure Members where
  items : List (Option (Element Thing))
  capabilities : List (String × Recipe) := []
deriving Inhabited

/-- A task of a script. -/
inductive Task where
  /-- Evaluates a recipe. -/
  | recipe (body : Recipe) (arguments : Fields) (marker : Option Marker) (timing : Timing)
    (isStarted : Bool)
  /-- Yields an outcome that was there from the start. -/
  | settled (outcome : Except FieldError (FieldValue Thing Members Task)) (timing : Timing)
    (isStarted : Bool)
  /-- Looks a key of the memo up. -/
  | memo (key : String) (body : Recipe) (arguments : Fields) (polls : Nat) (phase : LookupPhase)

instance : Inhabited Task := ⟨.settled default {} false⟩

/-- A value of a scripted field. -/
abbrev Value := FieldValue Thing Members Task

/-- The descriptor of a scripted field. -/
abbrev FieldDescriptor := Descriptor World Thing Members Task

namespace World

/-- A world at the start of an execution. -/
def start (context : Context) : World := { context }

/-- Adds an event. -/
def log (event : String) (world : World) : World :=
  { world with events := event :: world.events }

/-- Marks the world as broken. -/
def fail (world : World) : World :=
  { world with isBroken := true }

/-- Changes the context. -/
def update (change : Context → Context) (world : World) : World :=
  { world with context := change world.context }

/-- Whether the execution is to stop. -/
def isCancelled (world : World) : Bool :=
  world.context.cancelled || world.isBroken

/-- The events so far in their order, and the world without them. -/
def takeEvents (world : World) : List String × World :=
  (world.events.reverse, { world with events := [] })

end World

/-- The memo in the context of a world. -/
def memoPlace : Memo.Place World Json where
  get world := world.context.memo
  set memo world := world.update fun context => { context with memo }

/-- The object as the value of a field. -/
def Thing.toObject : Thing → Object Thing
  | .scripted type getters lookups => .host (.scripted type getters lookups)
  | .json type fields => .json type fields

/-- The object of a value, if it is one that a script can describe. -/
def Thing.ofValue? : Value → Option Thing
  | .object (.host thing) => some thing
  | .object (.json type fields) => some (.json type fields)
  | _ => none

/-- The value as a member of a collection, if it can be one. -/
def element? : Value → Option (Element Thing)
  | .value json => some (.value json)
  | value => (Thing.ofValue? value).map .object

end QueryEngine.Script
