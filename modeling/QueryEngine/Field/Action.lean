import QueryEngine.Connection.Page

/-!
# Actions of resolvers

A resolver changes the world of its host and, on a connection, may ask for the connection's page.
It never gets hold of the place where the page is kept: `Action.runWith` answers the first request
by computing the page and every later one with the same page, so a page is computed at most once
however a resolver behaves.
-/

namespace QueryEngine

/-- Where an action is: done, or waiting for the page. -/
inductive Step (W O α : Type) where
  | done (result : α) (world : W)
  | page (world : W) (next : Page O → W → Step W O α)

/-- What a resolver does, given the world. -/
def Action (W O α : Type) := W → Step W O α

variable {W O α β : Type}

namespace Step

/-- Goes on with another action where the first one is done. -/
def bind : Step W O α → (α → Action W O β) → Step W O β
  | .done result world, next => next result world
  | .page world resume, next => .page world fun answer world => (resume answer world).bind next

/-- Runs to the end. `known` is the page if it was computed before, `compute` computes it; answered
are the result, the page if it is known by then, and the world. -/
def runWith (compute : W → Page O × W) : Option (Page O) → Step W O α → α × Option (Page O) × W
  | known, .done result world => (result, known, world)
  | some answer, .page world next => runWith compute (some answer) (next answer world)
  | none, .page world next =>
    let (answer, world) := compute world
    runWith compute (some answer) (next answer world)

end Step

namespace Action

instance : Monad (Action W O) where
  pure result := fun world => .done result world
  bind action next := fun world => (action world).bind next

/-- An action that only changes the world. -/
def ofWorld (change : W → α × W) : Action W O α := fun world =>
  let (result, world) := change world
  .done result world

/-- Asks for the page of the connection. -/
def page : Action W O (Page O) := fun world =>
  .page world fun page world => .done page world

/-- Runs an action on a connection; see `Step.runWith`. -/
def runWith (action : Action W O α) (compute : W → Page O × W) (known : Option (Page O))
    (world : W) : α × Option (Page O) × W :=
  (action world).runWith compute known

/-- Runs an action where there is no connection: the page is empty. -/
def run (action : Action W O α) (world : W) : α × W :=
  let (result, _, world) := action.runWith (fun world => (.ok [], world)) none world
  (result, world)

end Action

end QueryEngine
