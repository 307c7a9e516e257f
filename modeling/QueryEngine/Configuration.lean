import QueryEngine.Error

/-!
# Configuration

The options of the engine. A limit that is absent does not limit; none of them may be zero.
-/

namespace QueryEngine

/-- How the deferred values of one drain step are forced. -/
inductive DrainMode where
  /-- Round after round, each round polling every value that is not ready, in the order in which
  the values were queued. -/
  | concurrent
  /-- One value after the other. -/
  | sequential
deriving DecidableEq, Inhabited, Repr

/-- The name of the mode in a configuration. -/
def DrainMode.text : DrainMode → String
  | .concurrent => "concurrent"
  | .sequential => "sequential"

/-- The mode of that name. -/
def DrainMode.ofText? (text : String) : Option DrainMode :=
  if text = "concurrent" then some .concurrent
  else if text = "sequential" then some .sequential
  else none

/-- The options of the engine. -/
structure Configuration where
  drainMode : DrainMode := .concurrent
  /-- The greatest number of drain steps of an execution. -/
  maxDrainSteps : Option Nat := none
  /-- The deepest nesting of selections that a tree is built for. -/
  recursionLimit : Nat := 512
  /-- The greatest number of items on a page of a connection. -/
  maxPageSize : Option Nat := none
deriving DecidableEq, Inhabited, Repr

/-- The configuration, if no limit is zero. -/
def Configuration.validate (configuration : Configuration) :
    Except ConfigurationError Configuration :=
  if configuration.recursionLimit = 0 then .error (.zeroLimit .recursionLimit)
  else if configuration.maxDrainSteps = some 0 then .error (.zeroLimit .maxDrainSteps)
  else if configuration.maxPageSize = some 0 then .error (.zeroLimit .maxPageSize)
  else .ok configuration

end QueryEngine
