import QueryEngine.Script.World

/-!
# Scripted lookups

Lookups on a memo that run side by side. Each says how often its computation is pending and what it
comes to, and leaves events when it computes, when it goes on and when it ends.
-/

namespace QueryEngine.Script

/-- A lookup on a memo. -/
structure Lookup where
  key : String
  id : String
  polls : Nat
  result : Except String Json

namespace Lookup

/-- The computation of the lookup. -/
def computation (lookup : Lookup) : Computation World String Json where
  polls := lookup.polls
  start := World.log ("init:" ++ lookup.id)
  resume := World.log ("resume:" ++ lookup.id)
  finish world := (lookup.result, world)

/-- Polls a lookup. -/
def poll (task : Lookup × LookupPhase) (world : World) :
    Progress (Lookup × LookupPhase) (Except String Json) × World :=
  let (lookup, phase) := task
  match Memo.poll memoPlace lookup.key lookup.computation phase world with
  | (.ready result, world) => (.ready result, world.log ("done:" ++ lookup.id))
  | (.waiting phase, world) => (.waiting (lookup, phase), world)

/-- How many rounds are enough for lookups: in each of them some lookup that computes goes on or
ends, or one that waits takes over. -/
def rounds (lookups : List Lookup) : Nat :=
  lookups.foldl (fun sum lookup => sum + lookup.polls + 2) 1

/-- Runs lookups side by side until all have ended. -/
def run (lookups : List Lookup) (world : World) : List (Except String Json) × World :=
  let tasks := lookups.map fun lookup => .waiting (lookup, .fresh)
  match Polling.concurrently poll (fun _ => false) (rounds lookups) tasks world with
  | some (.completed results, world) => (results, world)
  | some (.cancelled, world) => ([], world)
  | none => ([], world)

end Lookup

end QueryEngine.Script
