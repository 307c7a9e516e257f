import QueryEngine.Error

/-!
# Type bindings

A cell for the return type of a field, written once: at the start, by the first `bind`, or by a
thunk that runs when the type is first needed. A thunk may change the world of the host.
-/

namespace QueryEngine

/-- A cell for a type. -/
inductive TypeBinding (W : Type) where
  | unbound
  | bound (type : TypeRef)
  | deferred (thunk : W → TypeRef × W)
deriving Inhabited

variable {W : Type}

namespace TypeBinding

/-- The bound type, after running the thunk if there is one; with it the cell from now on. -/
def get (cell : TypeBinding W) (world : W) : Option TypeRef × TypeBinding W × W :=
  match cell with
  | .unbound => (none, .unbound, world)
  | .bound type => (some type, .bound type, world)
  | .deferred thunk =>
    let (type, world) := thunk world
    (some type, .bound type, world)

/-- Whether the type is there without running anything. -/
def isResolved : TypeBinding W → Bool
  | .bound _ => true
  | .unbound | .deferred _ => false

/-- Binds the cell to a type, unless another one is bound. -/
def bind (cell : TypeBinding W) (type : TypeRef) (world : W) :
    Except ConfigurationError TypeRef × TypeBinding W × W :=
  match cell.get world with
  | (none, _, world) => (.ok type, .bound type, world)
  | (some held, cell, world) =>
    if held = type then (.ok held, cell, world)
    else (.error (.typeRebound held type), cell, world)

/-- The text that shows the cell. -/
def inspect : TypeBinding W → String
  | .bound type => Text.applied "TypeBinding" type.text
  | .unbound | .deferred _ => "TypeBinding(<pending>)"

end TypeBinding

end QueryEngine
