import QueryEngine.Context
import QueryEngine.Field.Value

/-!
# Recipes

A recipe is a small program, written in JSON, that says what a resolver answers. With recipes for
the getters of its objects a whole host can be described by data. A recipe is a JSON object whose
first key is its word; the keys behind it are options. `Recipe.ofJson` reads any value: what is no
recipe becomes `unreadable`, which matters only if it is evaluated.
-/

namespace QueryEngine.Script

/-- When a task is ready. -/
structure Timing where
  /-- What the task is called in the events that it causes. -/
  event : Option String := none
  /-- How often the task is pending before it is ready; below zero it is never ready. -/
  polls : Int := 0
deriving Inhabited

/-- What can be read from an edge of a connection. -/
inductive EdgeView where
  | position
  | cursor
  | node
  | inspect

/-- What can be read from a connection. -/
inductive ConnectionView where
  | length
  | isEmpty
  | elements
  | element (index : Nat)
  | capability (method : String)
  | arguments
  /-- The positions of the page. -/
  | positions
  | inspect

/-- A small program for a resolver. -/
inductive Recipe where
  | value (json : Json)
  | object (type : String) (getters lookups : List (String × Recipe))
  | jsonObject (type : String) (fields : Fields)
  | list (items : List Recipe)
  /-- A collection; where an item is absent, the position has no member. -/
  | collection (items : List (Option Recipe)) (capabilities : List (String × Recipe))
  /-- A task that evaluates a recipe when it is ready. -/
  | lazy (body : Recipe) (timing : Timing)
  /-- A task that yields what the recipe yields now. -/
  | delay (body : Recipe) (timing : Timing)
  | deferred (marker : Marker)
  /-- The payload of the marker. -/
  | payload
  | fail (error : FieldError)
  | argument (name : String)
  | arguments
  | variable (name : String)
  /-- A getter of the object, with other arguments if they are given. -/
  | call (method : String) (arguments : Option Fields)
  | lookup (key : String)
  | typeName
  /-- One after the other; the last one is the answer. -/
  | sequence (recipes : List Recipe)
  | log (event : String)
  | cancel
  | isCancelled
  | get (key : String) (kind : EntryKind)
  | insert (key : String) (kind : EntryKind) (value : Json)
  | count (key : String)
  /-- A task that looks a key of the memo up. -/
  | memo (key : String) (body : Recipe) (polls : Nat)
  /-- The recipe of that name in the script. -/
  | named (name : String)
  | edge (view : EdgeView)
  | connection (view : ConnectionView)
  | unreadable
deriving Inhabited

/-- The name of a type of payloads. -/
def payloadType? (word : String) : Option String :=
  match word with
  | "u32" => some "u32"
  | "i64" => some "i64"
  | "bool" => some "bool"
  | "string" => some "alloc::string::String"
  | _ => none

/-- The kind of entry that a word stands for. -/
def entryKind? (word : String) : Option EntryKind :=
  match word with
  | "u32" => some .unsigned32
  | "i64" => some .signed64
  | "bool" => some .bool
  | "string" => some .string
  | "strings" => some .strings
  | "json" => some .any
  | _ => none

namespace Recipe

/-- The text of an option. -/
def text? (options : Fields) (key : String) : Option String :=
  (options.lookup key).bind Json.asString?

/-- The whole number of an option, zero if there is none. -/
def integer (options : Fields) (key : String) : Int :=
  ((options.lookup key).bind Json.asSigned?).getD 0

/-- The timing that the options of a task state. -/
def timing (options : Fields) : Timing :=
  ⟨text? options "event", integer options "polls"⟩

/-- The error that a failing recipe states. -/
def error (message : String) (options : Fields) : FieldError :=
  let extended := (((options.lookup "ext").getD .null).fields).foldl
    (fun error (key, json) => error.withExtension key json) (FieldError.new message)
  match text? options "code" with
  | some code => extended.withCode code
  | none => extended

/-- The recipes in an object, by name. -/
def entries (read : Json → Recipe) (value : Option Json) : List (String × Recipe) :=
  ((value.getD .null).fields).map fun (name, body) => (name, read body)

/-- The recipe for an item of a collection, if the item is there. -/
def item? (read : Json → Recipe) (value : Json) : Option Recipe :=
  if value.isNull then none else some (read value)

/-- Reads recipes for values. -/
def readValue? (read : Json → Recipe) (word : String) (body : Json) (options : Fields) :
    Option Recipe :=
  match word with
  | "value" => some (.value body)
  | "object" => do
    some (.object (← text? body.fields "type") (entries read (body.get? "fields"))
      (entries read (body.get? "lookups")))
  | "bare" => body.asString?.map fun type => .object type [] []
  | "json_object" => do
    some (.jsonObject (← text? body.fields "type") ((body.get? "fields").getD .null).fields)
  | "list" => some (.list (body.items.map read))
  | "vec" | "plain" => some (.collection (body.items.map fun item => some (read item)) [])
  | "collection" =>
    some (.collection (((body.get? "items").getD .null).items.map (item? read))
      (entries read (body.get? "calls")))
  | "deferred" => do
    some (.deferred ⟨← payloadType? (← body.asString?), (options.lookup "payload").getD .null⟩)
  | "error" => body.asString?.map fun message => .fail (error message options)
  | "missing" =>
    match body with
    | .array [.string target, .string operation] => some (.fail (.unsupported target operation))
    | _ => none
  | _ => none

/-- Reads recipes for tasks, and those that combine others. -/
def readTask? (read : Json → Recipe) (word : String) (body : Json) (options : Fields) :
    Option Recipe :=
  match word with
  | "lazy" => some (.lazy (read body) (timing options))
  | "delay" => some (.delay (read body) (timing options))
  | "memo" => do
    let init := ((options.lookup "init").map read).getD .unreadable
    some (.memo (← body.asString?) init (integer options "polls").toNat)
  | "seq" => some (.sequence (body.items.map read))
  | "ref" => body.asString?.map .named
  | _ => none

/-- Reads recipes that look at what the resolver is called with. -/
def readScope? (word : String) (body : Json) (options : Fields) : Option Recipe :=
  match word with
  | "payload" => some .payload
  | "arg" => body.asString?.map .argument
  | "args" => some .arguments
  | "var" => body.asString?.map .variable
  | "call" => body.asString?.map fun method =>
    .call method ((options.lookup "args").map Json.fields)
  | "lookup" => body.asString?.map .lookup
  | "type_name" => some .typeName
  | "edge" =>
    match body with
    | .string "position" => some (.edge .position)
    | .string "cursor" => some (.edge .cursor)
    | .string "node" => some (.edge .node)
    | .string "debug" => some (.edge .inspect)
    | _ => none
  | "state" =>
    match body with
    | .string "len" | .string "items_len" => some (.connection .length)
    | .string "is_empty" => some (.connection .isEmpty)
    | .string "elements" => some (.connection .elements)
    | .string "get" => some (.connection (.element (integer options "index").toNat))
    | .string "call" => (text? options "method").map fun method =>
      .connection (.capability method)
    | .string "arguments" => some (.connection .arguments)
    | .string "filtered" => some (.connection .positions)
    | .string "debug" => some (.connection .inspect)
    | _ => none
  | _ => none

/-- Reads recipes that read or change the context. -/
def readEffect? (word : String) (body : Json) (options : Fields) : Option Recipe :=
  match word with
  | "log" => body.asString?.map .log
  | "cancel" => some .cancel
  | "is_cancelled" => some .isCancelled
  | "ctx_get" => do
    some (.get (← body.asString?) (← entryKind? (← text? options "as")))
  | "ctx_insert" => do
    some (.insert (← body.asString?) (← entryKind? (← text? options "as"))
      ((options.lookup "with").getD .null))
  | "count" => body.asString?.map .count
  | _ => none

/-- Reads a recipe that has at most `levels` levels. -/
def read : Nat → Json → Recipe
  | 0, _ => .unreadable
  | levels + 1, json =>
    match json.fields with
    | [] => .unreadable
    | (word, body) :: options =>
      (((readValue? (read levels) word body options).or
        (readTask? (read levels) word body options)).or
        ((readScope? word body options).or (readEffect? word body options))).getD .unreadable

/-- The recipe that a value is. -/
def ofJson (value : Json) : Recipe :=
  read value.height value

end Recipe

end QueryEngine.Script
