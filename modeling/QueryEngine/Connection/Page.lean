import QueryEngine.Connection.Cursor
import QueryEngine.Field.Value

/-!
# Pages

A page is a part of a collection, each item with its position in the collection. An operation makes
a page smaller or otherwise other, given the value of its argument; a connection field declares a
list of operations. `paginate` applies, in the order of declaration, those whose argument is there
and not null, and stops at the first that fails. `Slice` names the operations that come with the
engine.
-/

namespace QueryEngine

/-- An operation on pages, applied for the value of an argument. -/
structure PageOperation (W O : Type) where
  argument : String
  run : List (Item O) → Json → W → Except FieldError (List (Item O)) × W

/-- A page, or the error of the operation that failed. -/
abbrev Page (O : Type) := Except FieldError (List (Item O))

/-- The operations that come with the engine. -/
inductive Slice where
  /-- Keeps the leading items. -/
  | first
  /-- Keeps the trailing items. -/
  | last
  /-- Keeps the items positioned after a cursor. -/
  | after
  /-- Keeps the items positioned before a cursor. -/
  | before
deriving DecidableEq, Repr

variable {W O : Type}

namespace Slice

/-- The argument that the operation is applied for. -/
def argument : Slice → String
  | .first => "first"
  | .last => "last"
  | .after => "after"
  | .before => "before"

/-- The value of an argument that counts items. -/
def count (argument : String) (value : Json) : Except FieldError Nat :=
  match value.asUnsigned? with
  | some n => .ok n
  | none => .error (.invalid ("'" ++ argument ++ "' must be a non-negative integer"))

/-- The position of an argument that is a cursor. -/
def position (argument : String) (value : Json) : Except FieldError Nat :=
  match value.asString? with
  | some cursor => Cursor.decode cursor
  | none => .error (.invalid ("'" ++ argument ++ "' must be a cursor"))

/-- The number that the value of the argument stands for: a count or a position. -/
def bound (slice : Slice) (value : Json) : Except FieldError Nat :=
  match slice with
  | .first | .last => count slice.argument value
  | .after | .before => position slice.argument value

/-- The items that the operation keeps. -/
def keep (slice : Slice) (n : Nat) (items : List (Item O)) : List (Item O) :=
  match slice with
  | .first => items.take n
  | .last => items.drop (items.length - n)
  | .after => items.filter fun item => n < item.position
  | .before => items.filter fun item => item.position < n

/-- The page that the operation makes of another. -/
def apply (slice : Slice) (value : Json) (items : List (Item O)) : Page O :=
  (slice.bound value).map fun n => slice.keep n items

/-- The operation of a connection field. -/
def operation (slice : Slice) : PageOperation W O where
  argument := slice.argument
  run items value world := (slice.apply value items, world)

/-- The operations of the usual four arguments. -/
def relay : List Slice := [.after, .before, .first, .last]

end Slice

namespace Page

/-- The members of a collection with their positions. -/
def whole (elements : List (Element O)) : List (Item O) :=
  elements.zipIdx.map fun (element, position) => ⟨position, element⟩

/-- Applies the operations whose argument is there and not null. -/
def applyAll (arguments : Fields) :
    List (PageOperation W O) → List (Item O) → W → Page O × W
  | [], items, world => (.ok items, world)
  | operation :: rest, items, world =>
    match arguments.lookup operation.argument with
    | none | some .null => applyAll arguments rest items world
    | some value =>
      match operation.run items value world with
      | (.ok items, world) => applyAll arguments rest items world
      | (.error error, world) => (.error error, world)

/-- The first `size` items of a page, or all of them without a size. -/
def cap (size : Option Nat) (items : List (Item O)) : List (Item O) :=
  match size with
  | some size => items.take size
  | none => items

/-- The page of a collection for the arguments of a field. -/
def paginate (operations : List (PageOperation W O)) (maxSize : Option Nat)
    (elements : List (Element O)) (arguments : Fields) (world : W) : Page O × W :=
  let (page, world) := applyAll arguments operations (whole elements) world
  (page.map (cap maxSize), world)

end Page

end QueryEngine
