import QueryEngine.Polling

/-!
# Memos

A cache in which each key is computed at most once. The first lookup of a key computes its value;
lookups that come meanwhile wait in order of arrival. A value is kept and answers everybody. A
failure is not kept: it answers the lookup that computed, and the next in line computes itself when
it is polled again. Every lookup that may wait has a ticket of its own.
-/

namespace QueryEngine

/-- What is known of one key. -/
structure MemoCell (V : Type) where
  value? : Option V := none
  /-- The ticket of the lookup that computes. -/
  holder? : Option Nat := none
  /-- The tickets of the lookups that wait, in order of arrival. -/
  waiting : List Nat := []
deriving Inhabited

/-- A cache by keys. -/
structure Memo (V : Type) where
  cells : List (String × MemoCell V) := []
  /-- How many tickets were given out. -/
  tickets : Nat := 0
deriving Inhabited

/-- What a lookup is to do. -/
inductive MemoTurn (V : Type) where
  | answer (value : V)
  | compute
  | wait

/-- How a lookup computes the value: it is pending for a number of polls, then it finishes. -/
structure Computation (W E V : Type) where
  polls : Nat
  start : W → W
  resume : W → W
  finish : W → Except E V × W

/-- How far a lookup is. -/
inductive LookupPhase where
  | fresh
  | waiting (ticket : Nat)
  /-- Computing, with this many polls to come. -/
  | computing (polls : Nat)
deriving Inhabited

namespace Memo

variable {W E V : Type}

/-- The cell of a key. -/
def cell (memo : Memo V) (key : String) : MemoCell V :=
  (memo.cells.lookup key).getD {}

/-- Puts a cell in place. -/
def setCell (memo : Memo V) (key : String) (cell : MemoCell V) : Memo V :=
  { memo with cells := Entries.put key cell memo.cells }

/-- The value of a key, if it was computed. -/
def get? (memo : Memo V) (key : String) : Option V :=
  (memo.cell key).value?

/-- How many keys were looked up. -/
def size (memo : Memo V) : Nat :=
  memo.cells.length

/-- Starts a lookup: its turn and its ticket. -/
def enter (memo : Memo V) (key : String) : MemoTurn V × Nat × Memo V :=
  let cell := memo.cell key
  let ticket := memo.tickets
  let memo := { memo with tickets := ticket + 1 }
  match cell.value?, cell.holder? with
  | some value, _ => (.answer value, ticket, memo.setCell key cell)
  | none, none => (.compute, ticket, memo.setCell key { cell with holder? := some ticket })
  | none, some _ =>
    (.wait, ticket, memo.setCell key { cell with waiting := cell.waiting ++ [ticket] })

/-- The turn of a lookup that has waited. -/
def turn (memo : Memo V) (key : String) (ticket : Nat) : MemoTurn V :=
  let cell := memo.cell key
  match cell.value? with
  | some value => .answer value
  | none => if cell.holder? = some ticket then .compute else .wait

/-- Keeps a computed value. -/
def succeed (memo : Memo V) (key : String) (value : V) : Memo V :=
  memo.setCell key { value? := some value }

/-- Hands the key over to the next lookup that waits. -/
def fail (memo : Memo V) (key : String) : Memo V :=
  match (memo.cell key).waiting with
  | [] => memo.setCell key {}
  | ticket :: rest => memo.setCell key { holder? := some ticket, waiting := rest }

/-- Forgets the lookups that have not ended, because nobody polls them any more. -/
def release (memo : Memo V) : Memo V :=
  { memo with cells := memo.cells.map fun (key, cell) => (key, { value? := cell.value? }) }

/-- A memo that is a part of a world. -/
structure Place (W V : Type) where
  get : W → Memo V
  set : Memo V → W → W

/-- Ends a computation: its value is kept, its failure is not. -/
def finish (place : Place W V) (key : String) (computation : Computation W E V) (world : W) :
    Progress LookupPhase (Except E V) × W :=
  match computation.finish world with
  | (.ok value, world) =>
    (.ready (.ok value), place.set ((place.get world).succeed key value) world)
  | (.error error, world) => (.ready (.error error), place.set ((place.get world).fail key) world)

/-- Starts a computation. -/
def start (place : Place W V) (key : String) (computation : Computation W E V) (world : W) :
    Progress LookupPhase (Except E V) × W :=
  let world := computation.start world
  if computation.polls = 0 then finish place key computation world
  else (.waiting (.computing computation.polls), world)

/-- What a lookup does on its turn. -/
def take (place : Place W V) (key : String) (computation : Computation W E V)
    (turn : MemoTurn V) (ticket : Nat) (world : W) :
    Progress LookupPhase (Except E V) × W :=
  match turn with
  | .answer value => (.ready (.ok value), world)
  | .compute => start place key computation world
  | .wait => (.waiting (.waiting ticket), world)

/-- Polls a lookup. -/
def poll (place : Place W V) (key : String) (computation : Computation W E V)
    (phase : LookupPhase) (world : W) : Progress LookupPhase (Except E V) × W :=
  match phase with
  | .fresh =>
    let (turn, ticket, memo) := (place.get world).enter key
    take place key computation turn ticket (place.set memo world)
  | .waiting ticket =>
    take place key computation ((place.get world).turn key ticket) ticket world
  | .computing polls =>
    let world := computation.resume world
    if polls ≤ 1 then finish place key computation world
    else (.waiting (.computing (polls - 1)), world)

end Memo

end QueryEngine
