import Mathlib.Data.List.Induction
import QueryEngine.Field.Descriptor

/-!
# Which strategy resolves a field

A descriptor is told how to resolve its field by calls, any number of them and in any order
(`StrategyCall`). A resolver erases what was set before it, and a lookup key or a getter that is set
later erases the resolver. So only the calls after the last resolver count (`StrategyCall.recent`),
and of these only the last lookup key and the last getter: `Descriptor.strategy_applyAll` says what
strategy the calls leave behind, `Descriptor.resolve_applyAll` how the field is then resolved on an
object.
-/

namespace QueryEngine

variable {W O C T : Type}

/-- A call that says how a field is resolved. -/
inductive StrategyCall (W O C T : Type) where
  | lookupKey (key : String)
  | method (name : String)
  | resolver (resolver : Resolver W O C T)

namespace StrategyCall

/-- The descriptor after the call. -/
def apply (call : StrategyCall W O C T) (descriptor : Descriptor W O C T) : Descriptor W O C T :=
  match call with
  | lookupKey key => descriptor.withLookupKey key
  | method name => descriptor.withMethod name
  | resolver own => descriptor.withResolver own

/-- The descriptor after the calls, from the first to the last. -/
def applyAll (calls : List (StrategyCall W O C T)) (descriptor : Descriptor W O C T) :
    Descriptor W O C T :=
  calls.foldl (fun descriptor call => call.apply descriptor) descriptor

/-- The resolver that the call sets. -/
def resolver? : StrategyCall W O C T → Option (Resolver W O C T)
  | resolver own => some own
  | lookupKey _ | method _ => none

/-- The lookup key that the call sets. -/
def lookupKey? : StrategyCall W O C T → Option String
  | lookupKey key => some key
  | method _ | resolver _ => none

/-- The getter that the call sets. -/
def method? : StrategyCall W O C T → Option String
  | method name => some name
  | lookupKey _ | resolver _ => none

/-- The resolver that the last call sets, if that call sets one. -/
def lastResolver? (calls : List (StrategyCall W O C T)) : Option (Resolver W O C T) :=
  calls.getLast?.bind resolver?

/-- The calls after the last one that sets a resolver, the latest first. -/
def recent (calls : List (StrategyCall W O C T)) : List (StrategyCall W O C T) :=
  calls.reverse.takeWhile (·.resolver?.isNone)

/-- The lookup key that was set last since the last resolver. -/
def lastLookupKey? (calls : List (StrategyCall W O C T)) : Option String :=
  (recent calls).findSome? lookupKey?

/-- The getter that was set last since the last resolver. -/
def lastMethod? (calls : List (StrategyCall W O C T)) : Option String :=
  (recent calls).findSome? method?

/-! ## One more call -/

/-- The last of some calls is applied to what the others make of the descriptor. -/
theorem applyAll_concat (calls : List (StrategyCall W O C T)) (call : StrategyCall W O C T)
    (descriptor : Descriptor W O C T) :
    applyAll (calls ++ [call]) descriptor = call.apply (applyAll calls descriptor) :=
  List.foldl_append

/-- With one more call at the end, it is this one that may set the last resolver. -/
theorem lastResolver?_concat (calls : List (StrategyCall W O C T))
    (call : StrategyCall W O C T) : lastResolver? (calls ++ [call]) = call.resolver? := by
  rw [lastResolver?, List.getLast?_concat, Option.bind_some]

/-- A resolver makes all earlier calls void; any other call is added to those that count. -/
theorem recent_concat (calls : List (StrategyCall W O C T)) (call : StrategyCall W O C T) :
    recent (calls ++ [call]) = if call.resolver?.isNone then call :: recent calls else [] := by
  rw [recent, List.reverse_append, List.reverse_singleton, List.singleton_append,
    List.takeWhile_cons]
  rfl

/-- Right after a resolver no call counts. -/
theorem recent_eq_nil {calls : List (StrategyCall W O C T)} {own : Resolver W O C T}
    (h : lastResolver? calls = some own) : recent calls = [] := by
  induction calls using List.reverseRecOn with
  | nil => cases h
  | append_singleton calls last =>
    rw [lastResolver?_concat] at h
    rw [recent_concat, h, Option.isNone_some, if_neg Bool.false_ne_true]

end StrategyCall

open StrategyCall

namespace Descriptor

/-- Calls that set the strategy leave the name as it is. -/
theorem name_applyAll (calls : List (StrategyCall W O C T)) (descriptor : Descriptor W O C T) :
    (applyAll calls descriptor).name = descriptor.name := by
  induction calls using List.reverseRecOn with
  | nil => rfl
  | append_singleton calls last ih =>
    rw [applyAll_concat, ← ih]
    cases last <;> rfl

/-- The descriptor with that name and nothing set about how its field is resolved. -/
def named (descriptor : Descriptor W O C T) (name : String) : Descriptor W O C T :=
  { descriptor with name := some name, strategy := .standard none none }

/-- What the calls leave behind: the last resolver, or what was set since it. -/
theorem strategy_applyAll (calls : List (StrategyCall W O C T)) (descriptor : Descriptor W O C T)
    (name : String) : (applyAll calls (descriptor.named name)).strategy
      = (lastResolver? calls).elim (.standard (lastLookupKey? calls) (lastMethod? calls))
        .custom := by
  induction calls using List.reverseRecOn with
  | nil => rfl
  | append_singleton calls last ih =>
    -- What is carried over from the calls before: nothing if the last of them set a resolver.
    have ⟨hkey, hmethod⟩ :
        (applyAll calls (descriptor.named name)).lookupKey = lastLookupKey? calls
          ∧ (applyAll calls (descriptor.named name)).method = lastMethod? calls := by
      rw [Descriptor.lookupKey, Descriptor.method, ih]
      cases hlast : StrategyCall.lastResolver? calls with
      | none => exact ⟨rfl, rfl⟩
      | some own =>
        rw [lastLookupKey?, lastMethod?, recent_eq_nil hlast]
        exact ⟨rfl, rfl⟩
    rw [applyAll_concat, lastResolver?_concat, lastLookupKey?, lastMethod?, recent_concat]
    cases last with
    | lookupKey key =>
      show Strategy.standard (some key) _ = _
      rw [hmethod]
      rfl
    | method getter =>
      show Strategy.standard _ (some getter) = _
      rw [hkey]
      rfl
    | resolver own => rfl

/-- How a field is resolved after any calls that say how. If the last call set a resolver, that one
resolves it. Otherwise the calls after the last resolver count: the field is what the object has for
the last lookup key that was set there, null if it has nothing for it, or else what the last getter
yields that was set there, or else the getter of the field's name; a getter that the object does not
have is an error with the object's type and that getter. -/
theorem resolve_applyAll (host : Host W O C T) (descriptor : Descriptor W O C T) (name : String)
    (calls : List (StrategyCall W O C T)) (source : Source W O C) (arguments : Fields) :
    (applyAll calls (descriptor.named name)).resolve host source arguments
      = match lastResolver? calls, lastLookupKey? calls with
        | some own, _ => own source arguments
        | none, some key => do
          match ← source.lookup host key with
          | some found => return .ok found
          | none => return .ok .null
        | none, none => do
          let getter := (lastMethod? calls).getD name
          match ← source.call host getter arguments with
          | some outcome => return outcome
          | none => return .error (.unsupported (source.typeName host) getter) := by
  rw [Descriptor.resolve, strategy_applyAll, name_applyAll]
  cases lastResolver? calls with
  | some own => rfl
  | none =>
    cases lastLookupKey? calls with
    | some key =>
      refine congrArg (source.lookup host key >>= ·) (funext fun found => ?_)
      cases found <;> rfl
    | none =>
      have hgetter : (lastMethod? calls).or (descriptor.named name).name
          = some ((lastMethod? calls).getD name) := by
        cases lastMethod? calls <;> rfl
      simp only [Option.elim_none, hgetter]
      refine congrArg (source.call host _ arguments >>= ·) (funext fun outcome => ?_)
      cases outcome <;> rfl

end Descriptor

end QueryEngine
