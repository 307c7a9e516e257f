import QueryEngine.Context
import QueryEngine.Proofs.Json.Slot

/-!
# Entries of a context under calls of many types

Every call on the entries of a context chooses a type of its own, so a key may hold an entry that is
no value of the type that is asked for. What a call does to the entries has nothing to do with what
it answers (`EntryCall.run_snd`): an insertion puts a new entry in place also where it fails because
of the old one (`EntryCall.Overwrites`). Where each key has one type, no call meets an entry of
another (`Readable.runAll`). `entries_runAll` puts together what any history of calls guarantees.
-/

namespace QueryEngine

namespace EntryType

/-- What is written as an entry is read back. -/
def Faithful {α : Type} (type : EntryType α) : Prop :=
  ∀ value entry, type.write value = .ok entry → type.read entry = .ok value

end EntryType

/-- A value of a kind is read back. -/
theorem EntryKind.faithful_type (kind : EntryKind) : kind.type.Faithful := by
  intro value entry h
  simp only [EntryKind.type] at h ⊢
  split at h
  case isTrue haccepts =>
    cases h
    rw [if_pos haccepts]
  case isFalse => cases h

/-! ## Reading and inserting -/

namespace Context

variable {α : Type} {context context' : Context} {type : EntryType α} {key : String} {value : α}

/-- Reading fails at an entry that is no value of the type. -/
theorem getAs_eq_error_iff {error : FieldError} : context.getAs type key = .error error
    ↔ ∃ held, context.entries.lookup key = some held ∧ type.read held = .error error := by
  rw [getAs]
  cases context.entries.lookup key with
  | none => simp [EntryType.readEntry]
  | some held => cases hread : type.read held <;> simp [EntryType.readEntry, hread, Except.map]

/-- An insertion of a value that has no entry fails and changes nothing. -/
theorem insertAs_of_write_error {error : FieldError} (h : type.write value = .error error) :
    context.insertAs type key value = (.error error, context) := by
  rw [insertAs, h]

/-- An insertion of a value that has an entry puts that in place, whatever it answers. -/
theorem insertAs_of_write {entry : Json} (h : type.write value = .ok entry) :
    context.insertAs type key value
      = (context.getAs type key,
        { context with entries := Entries.put key entry context.entries }) := by
  rw [insertAs, h, getAs]

/-- An insertion that succeeds answers what was held and puts the value's entry in place. -/
theorem insertAs_eq_ok {held : Option α}
    (h : context.insertAs type key value = (.ok held, context')) :
    ∃ entry, type.write value = .ok entry ∧ context.getAs type key = .ok held
      ∧ context' = { context with entries := Entries.put key entry context.entries } := by
  cases hwrite : type.write value with
  | error error =>
    rw [insertAs_of_write_error hwrite] at h
    cases h
  | ok entry =>
    rw [insertAs_of_write hwrite] at h
    obtain ⟨hheld, rfl⟩ := Prod.mk.inj h
    exact ⟨entry, rfl, hheld, rfl⟩

end Context

/-! ## Calls -/

/-- A call on the entries of a context, with the type that the caller chose. -/
inductive EntryCall : Type 1 where
  | get {α : Type} (type : EntryType α) (key : String)
  | insert {α : Type} (type : EntryType α) (key : String) (value : α)

namespace EntryCall

/-- The error that a call answers, if it fails. -/
def failure? {α : Type} : Except FieldError α → Option FieldError
  | .error error => some error
  | .ok _ => none

/-- The error of a call, if it fails, and the context after it. -/
def run (call : EntryCall) (context : Context) : Option FieldError × Context :=
  match call with
  | get type key => (failure? (context.getAs type key), context)
  | insert type key value =>
    let (held, context) := context.insertAs type key value
    (failure? held, context)

/-- The context after calls, from the first to the last. -/
def runAll (calls : List EntryCall) (context : Context) : Context :=
  calls.foldl (fun context call => (call.run context).2) context

/-- The entry that a call puts in place, with its key. -/
def put? : EntryCall → Option (String × Json)
  | get _ _ => none
  | insert type key value => ((type.write value).toOption).map fun entry => (key, entry)

/-- The call inserts a new entry over one that is no value of the type that it chose. -/
inductive Overwrites (context : Context) : EntryCall → Prop
  | insert {α : Type} {type : EntryType α} {key : String} {value : α} {held entry : Json}
    {error : FieldError} (holds : context.entries.lookup key = some held)
    (unreadable : type.read held = .error error) (written : type.write value = .ok entry)
    (differs : held ≠ entry) : Overwrites context (insert type key value)

/-- A call fails with the error that it answers. -/
theorem failure?_eq_some_iff {α : Type} {result : Except FieldError α} {error : FieldError} :
    failure? result = some error ↔ result = .error error := by
  cases result <;> simp [failure?]

/-- What a call does to a context depends on what it puts in place only. -/
theorem run_snd (call : EntryCall) (context : Context) : (call.run context).2
    = call.put?.elim context fun (key, entry) =>
      { context with entries := Entries.put key entry context.entries } := by
  cases call with
  | get type key => rfl
  | insert type key value =>
    cases hwrite : type.write value with
    | error error =>
      simp [run, put?, Context.insertAs_of_write_error hwrite, hwrite, Except.toOption]
    | ok entry => simp [run, put?, Context.insertAs_of_write hwrite, hwrite, Except.toOption]

/-- A call that fails leaves the entries as they were, unless it overwrites one. -/
theorem entries_run_of_fails {call : EntryCall} {context : Context} {error : FieldError}
    (h : (call.run context).1 = some error) :
    (call.run context).2.entries = context.entries ↔ ¬ call.Overwrites context := by
  cases call with
  | get type key => exact ⟨fun _ => nofun, fun _ => rfl⟩
  | insert type key value =>
    cases hwrite : type.write value with
    | error refusal =>
      have hsame : (run (insert type key value) context).2 = context := by
        rw [run, Context.insertAs_of_write_error hwrite]
      rw [hsame]
      refine ⟨fun _ hover => ?_, fun _ => rfl⟩
      cases hover with
      | insert _ _ written => cases hwrite.symm.trans written
    | ok entry =>
      simp only [run, Context.insertAs_of_write hwrite] at h ⊢
      obtain ⟨held, hheld, hread⟩ := Context.getAs_eq_error_iff.1 (failure?_eq_some_iff.1 h)
      constructor
      · rintro hsame (⟨holds, _, written, differs⟩)
        rw [hwrite] at written
        cases written
        have hput := Entries.lookup_put_self key entry context.entries
        rw [hsame, holds] at hput
        exact differs (Option.some.inj hput)
      · intro hnot
        by_cases hentry : held = entry
        · exact Entries.put_of_lookup (hentry ▸ hheld)
        · exact absurd (.insert hheld hread hwrite hentry) hnot

end EntryCall

/-! ## One type for each key -/

/-- The type that each key has. -/
abbrev EntryTypes := String → (α : Type) × EntryType α

/-- The call has chosen the type that its key has. -/
inductive EntryCall.Keeps (types : EntryTypes) : EntryCall → Prop
  | get (key : String) : Keeps types (get (types key).2 key)
  | insert (key : String) (value : (types key).1) : Keeps types (insert (types key).2 key value)

/-- Every entry is a value of the type that its key has. -/
def Readable (types : EntryTypes) (context : Context) : Prop :=
  ∀ key entry, context.entries.lookup key = some entry →
    ∃ value, (types key).2.read entry = .ok value

namespace Readable

variable {types : EntryTypes} {context : Context}

/-- Where every entry is of its key's type, a call that keeps to the types overwrites none that it
cannot read. -/
theorem not_overwrites (h : Readable types context) {call : EntryCall} (hc : call.Keeps types) :
    ¬ call.Overwrites context := by
  rintro (@⟨_, _, key, value, held, entry, error, holds, unreadable, -, -⟩)
  cases hc with
  | insert =>
    obtain ⟨_, hread⟩ := h key held holds
    cases hread.symm.trans unreadable

/-- A call that keeps to the types leaves entries of the types. -/
theorem run (hf : ∀ key, (types key).2.Faithful) (h : Readable types context) {call : EntryCall}
    (hc : call.Keeps types) : Readable types (call.run context).2 := by
  cases hc with
  | get key => exact h
  | insert key value =>
    rw [EntryCall.run_snd, EntryCall.put?]
    cases hwrite : (types key).2.write value with
    | error error => exact h
    | ok entry =>
      intro other held hheld
      by_cases hkey : other = key
      · subst hkey
        have hput := hheld.symm.trans (Entries.lookup_put_self ..)
        cases hput
        exact ⟨value, hf other value entry hwrite⟩
      · exact h other held ((Entries.lookup_put_of_ne hkey _ _).symm.trans hheld)

/-- Calls that keep to the types leave entries of the types, however many they are. -/
theorem runAll (hf : ∀ key, (types key).2.Faithful) (h : Readable types context)
    {calls : List EntryCall} (hc : ∀ call ∈ calls, call.Keeps types) :
    Readable types (EntryCall.runAll calls context) := by
  induction calls generalizing context with
  | nil => exact h
  | cons call rest ih =>
    refine ih (h.run hf (hc call (List.mem_cons_self ..))) fun other ho => ?_
    exact hc other (List.mem_cons_of_mem call ho)

end Readable

/-! ## Any history of calls -/

namespace EntryCall

/-- What the calls on the entries of a context guarantee, whatever calls came before them and
whatever types they chose. A call that fails leaves the entries as they were just if it does not
insert a new entry over one that is no value of its type. An insertion that succeeds answers the
value that was held, changes its key only, and is read back if what its type writes is read back.
If every key has one type that all calls keep to, then every call that fails leaves the entries as
they were. -/
theorem entries_runAll (context : Context) (calls : List EntryCall) :
    let reached := runAll calls context
    (∀ (call : EntryCall) (error : FieldError), (call.run reached).1 = some error →
        ((call.run reached).2.entries = reached.entries ↔ ¬ call.Overwrites reached))
      ∧ (∀ {α : Type} (type : EntryType α) (key : String) (value : α) (held : Option α)
          (after : Context), reached.insertAs type key value = (.ok held, after) →
            reached.getAs type key = .ok held
              ∧ (∀ other, other ≠ key →
                after.entries.lookup other = reached.entries.lookup other)
              ∧ (type.Faithful → after.getAs type key = .ok (some value)))
      ∧ ∀ types : EntryTypes, (∀ key, (types key).2.Faithful) → Readable types context →
        (∀ call ∈ calls, call.Keeps types) → ∀ call : EntryCall, call.Keeps types →
          ∀ error, (call.run reached).1 = some error →
            (call.run reached).2.entries = reached.entries := by
  intro reached
  refine ⟨fun call error => entries_run_of_fails, ?_, ?_⟩
  · intro α type key value held after h
    obtain ⟨entry, hwrite, hheld, rfl⟩ := Context.insertAs_eq_ok h
    refine ⟨hheld, fun other ho => Entries.lookup_put_of_ne ho _ _, fun hfaithful => ?_⟩
    rw [Context.getAs, Entries.lookup_put_self, EntryType.readEntry, hfaithful value entry hwrite]
    rfl
  · intro types hf hr hcalls call hc error hfails
    exact (entries_run_of_fails hfails).2 ((hr.runAll hf hcalls).not_overwrites hc)

/-- A number and a boolean, each under a key of its own type: an insertion of a text for the number
is refused, and both entries are still there. -/
theorem entries_runAll_typed :
    let kind (key : String) : EntryKind := if key = "on" then .bool else .unsigned32
    let reached := runAll
      [insert (kind "k").type "k" (.ofNat 7), insert (kind "on").type "on" (.bool true)] { id := 1 }
    let call := insert (kind "k").type "k" (.string "seven")
    (call.run reached).1 = some .wrongType
      ∧ (call.run reached).2.entries = reached.entries
      ∧ reached.entries = [("k", .ofNat 7), ("on", .bool true)] := by
  intro kind reached call
  let types : EntryTypes := fun key => ⟨Json, (kind key).type⟩
  have hfails : (call.run reached).1 = some .wrongType := rfl
  have hkeeps : ∀ call ∈ [insert (kind "k").type "k" (.ofNat 7),
      insert (kind "on").type "on" (.bool true)], call.Keeps types := by
    simp only [List.forall_mem_cons]
    exact ⟨.insert "k" _, .insert "on" _, nofun⟩
  refine ⟨hfails, (entries_runAll { id := 1 } _).2.2 types ?_ ?_ hkeeps call ?_ .wrongType hfails,
    rfl⟩
  · exact fun key => (kind key).faithful_type
  · intro key entry h
    cases h
  · exact .insert "k" _

/-- A failed insertion may have changed the entries: a boolean over a number is refused, and is
there all the same. -/
theorem entries_runAll_not :
    ¬ ∀ (context : Context) (calls : List EntryCall) (call : EntryCall) (error : FieldError),
      (call.run (runAll calls context)).1 = some error →
        (call.run (runAll calls context)).2.entries = (runAll calls context).entries := by
  intro h
  have hsame := h { id := 1 } [insert EntryKind.unsigned32.type "k" (.ofNat 7)]
    (insert EntryKind.bool.type "k" (.bool true)) .wrongType rfl
  have hboth : some (Json.bool true) = some (Json.ofNat 7) := congrArg (List.lookup "k") hsame
  cases hboth

end EntryCall

end QueryEngine
