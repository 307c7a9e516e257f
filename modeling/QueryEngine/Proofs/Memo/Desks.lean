import Mathlib.Data.List.Induction
import Mathlib.Data.List.Nodup
import Mathlib.Logic.Function.Basic
import QueryEngine.Memo

/-!
# Desks

What a memo does with numbered lookups, without its tickets: each key has a desk, where its value is
kept or lookups stand in line, and of a line only the first one computes. `Desks.act` says what an
event does. What is noted of the lookups is in order, note after note (`Orderly.act`): no
computation starts next to another one for its key or after a value was computed, and every lookup
ends with that value, or with its own failure if there is none (`Note.Allowed`). What happens at one
key does not depend on what happens at others (`restricts_run`).
-/

namespace QueryEngine.Memo

variable {E V : Type}

/-! ## Notes -/

/-- What is noted of lookups, each by its number. -/
inductive Note (E V : Type) where
  /-- The lookup starts its computation. -/
  | started (lookup : Nat)
  /-- The computation of the lookup ends. -/
  | computed (lookup : Nat) (outcome : Except E V)
  /-- The lookup ends. -/
  | answered (lookup : Nat) (result : Except E V)
  /-- The lookup is not polled any more. -/
  | dropped (lookup : Nat)
  /-- None of the lookups that have not ended is polled any more. -/
  | released

/-- The computation of the lookup does not go on after the note. -/
def Note.Ends (lookup : Nat) : Note E V → Prop
  | .computed other _ | .dropped other => other = lookup
  | .released => True
  | .started _ | .answered _ _ => False

/-- The lookup that the note is about, unless it is about all of them. -/
def Note.lookup? : Note E V → Option Nat
  | .started lookup | .computed lookup _ | .answered lookup _ | .dropped lookup => some lookup
  | .released => none

/-- The note is about a lookup of the key, or about all lookups. -/
def Note.isAt (keys : Nat → String) (key : String) (note : Note E V) : Bool :=
  note.lookup?.all fun lookup => decide (keys lookup = key)

/-- After the notes the computation of the lookup is in progress. -/
def Running (lookup : Nat) (notes : List (Note E V)) : Prop :=
  ∃ before after, notes = before ++ .started lookup :: after ∧ ∀ note ∈ after, ¬ note.Ends lookup

/-- A computation for the key came to the value. -/
def Yields (keys : Nat → String) (key : String) (value : V) (notes : List (Note E V)) : Prop :=
  ∃ lookup, keys lookup = key ∧ .computed lookup (.ok value) ∈ notes

/-- What may be noted after other notes, if `keys` are the keys of the lookups. -/
def Note.Allowed (keys : Nat → String) (before : List (Note E V)) : Note E V → Prop
  | .started lookup =>
    .started lookup ∉ before ∧ (∀ other, keys other = keys lookup → ¬ Running other before)
      ∧ ∀ value, ¬ Yields keys (keys lookup) value before
  | .computed lookup _ =>
    Running lookup before ∧ ∀ value, ¬ Yields keys (keys lookup) value before
  | .answered lookup result =>
    (∀ value, Yields keys (keys lookup) value before → result = .ok value)
      ∧ (∀ value, result = .ok value → Yields keys (keys lookup) value before)
      ∧ ∀ error, result = .error error → .computed lookup (.error error) ∈ before
  | .dropped _ | .released => True

/-- Each of the notes may be noted after those before it. -/
def InOrder (keys : Nat → String) (notes : List (Note E V)) : Prop :=
  ∀ before note after, notes = before ++ note :: after → note.Allowed keys before

section
variable {keys : Nat → String} {notes : List (Note E V)} {note : Note E V} {lookup : Nat}

/-- Notes stay in order if one is appended that may be noted after them. -/
theorem InOrder.concat (h : InOrder keys notes) (hn : note.Allowed keys notes) :
    InOrder keys (notes ++ [note]) := by
  intro before other after he
  rcases List.eq_nil_or_concat after with rfl | ⟨after, last, rfl⟩
  · obtain ⟨rfl, hother⟩ := List.append_inj' he rfl
    obtain rfl := List.singleton_inj.1 hother
    exact hn
  · rw [List.concat_eq_append, ← List.cons_append, ← List.append_assoc] at he
    exact h before other after (List.append_inj' he rfl).1

/-- A computation is in progress after a note if the note starts it, or if it was before and the
note does not end it. -/
theorem running_concat :
    Running lookup (notes ++ [note])
      ↔ note = .started lookup ∨ Running lookup notes ∧ ¬ note.Ends lookup := by
  constructor
  · rintro ⟨before, after, he, ha⟩
    rcases List.eq_nil_or_concat after with rfl | ⟨after, last, rfl⟩
    · exact .inl (List.singleton_inj.1 (List.append_inj' he rfl).2)
    · rw [List.concat_eq_append] at he ha
      rw [← List.cons_append, ← List.append_assoc] at he
      obtain ⟨rfl, hlast⟩ := List.append_inj' he rfl
      obtain rfl := List.singleton_inj.1 hlast
      exact .inr ⟨⟨before, after, rfl, fun other ho => ha other (List.mem_append_left _ ho)⟩,
        ha _ (List.mem_append_right _ (List.mem_singleton_self _))⟩
  · rintro (rfl | ⟨⟨before, after, rfl, ha⟩, hn⟩)
    · exact ⟨notes, [], rfl, fun _ ho => absurd ho List.not_mem_nil⟩
    · refine ⟨before, after ++ [note], by simp, ?_⟩
      intro other ho
      rcases List.mem_append.1 ho with ho | ho
      · exact ha other ho
      · obtain rfl := List.mem_singleton.1 ho
        exact hn

/-- A value was computed by the time of a note if it was before, or if the note says so. -/
theorem yields_concat {key : String} {value : V} :
    Yields keys key value (notes ++ [note])
      ↔ Yields keys key value notes
        ∨ ∃ lookup, keys lookup = key ∧ note = .computed lookup (.ok value) := by
  simp only [Yields, List.mem_append, List.mem_singleton, and_or_left, exists_or, eq_comm]

end

/-! ## Desks and events -/

/-- What there is at a key. -/
inductive Desk (V : Type) where
  | kept (value : V)
  /-- Lookups that have not ended; the first one computes, or is called. -/
  | line (lookups : List Nat)

namespace Desk

/-- Those in line. -/
def members : Desk V → List Nat
  | .kept _ => []
  | .line lookups => lookups

/-- A lookup goes to the end of the line. -/
def join (lookup : Nat) : Desk V → Desk V
  | .kept value => .kept value
  | .line lookups => .line (lookups ++ [lookup])

/-- A lookup leaves the line. -/
def leave (lookup : Nat) : Desk V → Desk V
  | .kept value => .kept value
  | .line lookups => .line (lookups.erase lookup)

/-- All leave the line. -/
def clear : Desk V → Desk V
  | .kept value => .kept value
  | .line _ => .line []

section
variable {desk : Desk V} {lookup : Nat} {value : V}

@[simp] theorem members_line (lookups : List Nat) :
    (line lookups : Desk V).members = lookups :=
  rfl

@[simp] theorem join_eq_kept : desk.join lookup = .kept value ↔ desk = .kept value := by
  cases desk <;> simp [join]

@[simp] theorem leave_eq_kept : desk.leave lookup = .kept value ↔ desk = .kept value := by
  cases desk <;> simp [leave]

@[simp] theorem clear_eq_kept : desk.clear = .kept value ↔ desk = .kept value := by
  cases desk <;> simp [clear]

end

end Desk

/-- How far a lookup is. -/
inductive Standing where
  | fresh
  | waiting
  | computing
  | ended
deriving DecidableEq

/-- How far a lookup is that is not polled any more, if it was polled before. -/
def Standing.release : Standing → Standing
  | .fresh => .fresh
  | .waiting | .computing | .ended => .ended

/-- What becomes of a lookup at its desk, and of the desk. -/
structure Visit (E V : Type) where
  desk : Desk V
  standing : Standing
  notes : List (Note E V) := []

namespace Desk

/-- A lookup that came to the desk is answered if there is a value, and computes if it is the first
in line. -/
def take (lookup : Nat) (desk : Desk V) : Visit E V :=
  match desk with
  | .kept value => ⟨desk, .ended, [.answered lookup (.ok value)]⟩
  | .line lookups =>
    if lookups.head? = some lookup then ⟨desk, .computing, [.started lookup]⟩
    else ⟨desk, .waiting, []⟩

/-- It is the turn of a lookup. -/
def turn (lookup : Nat) (desk : Desk V) (standing : Standing) : Visit E V :=
  match standing with
  | .fresh => (desk.join lookup).take lookup
  | .waiting => desk.take lookup
  | .computing | .ended => ⟨desk, standing, []⟩

/-- The desk after a lookup at it computed. -/
def settle (lookup : Nat) (outcome : Except E V) (desk : Desk V) : Desk V :=
  match outcome with
  | .ok value => .kept value
  | .error _ => desk.leave lookup

/-- The computation of a lookup comes to an outcome. -/
def finish (lookup : Nat) (outcome : Except E V) (desk : Desk V) (standing : Standing) :
    Visit E V :=
  if standing = .computing then
    ⟨desk.settle lookup outcome, .ended, [.computed lookup outcome, .answered lookup outcome]⟩
  else ⟨desk, standing, []⟩

/-- A lookup is dropped. -/
def drop (lookup : Nat) (desk : Desk V) (standing : Standing) : Visit E V :=
  if standing = .ended then ⟨desk, standing, []⟩
  else ⟨desk.leave lookup, .ended, [.dropped lookup]⟩

section
variable {lookup : Nat} {outcome : Except E V} {desk : Desk V} {standing : Standing}
  {note : Note E V}

/-- What is noted when a lookup takes its turn at a desk is about that lookup. -/
theorem lookup?_of_mem_take (h : note ∈ (desk.take lookup).notes) : note.lookup? = some lookup := by
  unfold take at h
  split at h
  · obtain rfl := List.mem_singleton.1 h
    rfl
  · split at h
    · obtain rfl := List.mem_singleton.1 h
      rfl
    · cases h

/-- What is noted on any turn is about the lookup whose turn it is. -/
theorem lookup?_of_mem_turn (h : note ∈ (desk.turn lookup standing).notes) :
    note.lookup? = some lookup := by
  cases standing with
  | fresh => exact lookup?_of_mem_take h
  | waiting => exact lookup?_of_mem_take h
  | computing => cases h
  | ended => cases h

/-- What is noted when a computation ends is about the lookup that computed. -/
theorem lookup?_of_mem_finish (h : note ∈ (desk.finish lookup outcome standing).notes) :
    note.lookup? = some lookup := by
  unfold finish at h
  split at h
  · rcases List.mem_pair.1 h with rfl | rfl <;> rfl
  · cases h

/-- What is noted when a lookup is dropped is about that lookup. -/
theorem lookup?_of_mem_drop (h : note ∈ (desk.drop lookup standing : Visit E V).notes) :
    note.lookup? = some lookup := by
  unfold drop at h
  split at h
  · cases h
  · obtain rfl := List.mem_singleton.1 h
    rfl

end

end Desk

/-- The desks, how far the lookups are, and what was noted of them. -/
structure Desks (E V : Type) where
  desk : String → Desk V := fun _ => .line []
  standing : Nat → Standing := fun _ => .fresh
  notes : List (Note E V) := []

/-- What happens at the desks. -/
inductive Event (E V : Type) where
  | turn (lookup : Nat)
  | finish (lookup : Nat) (outcome : Except E V)
  | drop (lookup : Nat)
  | release

/-- The lookup that the event happens to, unless it happens to all of them. -/
def Event.lookup? : Event E V → Option Nat
  | .turn lookup | .finish lookup _ | .drop lookup => some lookup
  | .release => none

/-- The event happens to a lookup of the key, or to all lookups. -/
def Event.isAt (keys : Nat → String) (key : String) (event : Event E V) : Bool :=
  event.lookup?.all fun lookup => decide (keys lookup = key)

namespace Desks

/-- The desks after one lookup was at its desk. -/
def put (keys : Nat → String) (lookup : Nat) (visit : Visit E V) (desks : Desks E V) :
    Desks E V where
  desk := Function.update desks.desk (keys lookup) visit.desk
  standing := Function.update desks.standing lookup visit.standing
  notes := desks.notes ++ visit.notes

/-- The desks after an event. -/
def act (keys : Nat → String) (desks : Desks E V) : Event E V → Desks E V
  | .turn lookup =>
    desks.put keys lookup ((desks.desk (keys lookup)).turn lookup (desks.standing lookup))
  | .finish lookup outcome =>
    desks.put keys lookup
      ((desks.desk (keys lookup)).finish lookup outcome (desks.standing lookup))
  | .drop lookup =>
    desks.put keys lookup ((desks.desk (keys lookup)).drop lookup (desks.standing lookup))
  | .release =>
    { desk := fun key => (desks.desk key).clear
      standing := fun lookup => (desks.standing lookup).release
      notes := desks.notes ++ [.released] }

/-- The desks that many events lead to. -/
def run (keys : Nat → String) (events : List (Event E V)) : Desks E V :=
  events.foldl (act keys) {}

@[simp] theorem put_self (keys : Nat → String) (lookup : Nat) (desks : Desks E V) :
    desks.put keys lookup ⟨desks.desk (keys lookup), desks.standing lookup, []⟩ = desks := by
  simp [put]

/-- Two visits of one lookup are one visit, with the notes of both. -/
theorem put_put (keys : Nat → String) (lookup : Nat) (first second : Visit E V)
    (desks : Desks E V) :
    (desks.put keys lookup first).put keys lookup second
      = desks.put keys lookup { second with notes := first.notes ++ second.notes } := by
  simp [put]

end Desks

/-! ## Lines -/

/-- Those in line at the desk of a key are the lookups of the key that wait or compute, and only the
first of them computes. Where a value is kept none computes. -/
def Desk.Lined (keys : Nat → String) (key : String) (standing : Nat → Standing) : Desk V → Prop
  | .kept _ => ∀ lookup, keys lookup = key → standing lookup ≠ .computing
  | .line lookups => lookups.Nodup
    ∧ (∀ lookup, lookup ∈ lookups ↔ keys lookup = key
      ∧ (standing lookup = .waiting ∨ standing lookup = .computing))
    ∧ ∀ lookup, keys lookup = key → standing lookup = .computing → lookups.head? = some lookup

namespace Desk.Lined

variable {keys : Nat → String} {key : String} {standing : Nat → Standing} {desk : Desk V}
  {lookup : Nat}

/-- What happens to a lookup does not concern the line of another key. -/
theorem of_ne (h : desk.Lined keys key standing) (hk : key ≠ keys lookup) (state : Standing) :
    desk.Lined keys key (Function.update standing lookup state) := by
  have hne : ∀ other, keys other = key → Function.update standing lookup state other
      = standing other := by
    rintro other rfl
    exact Function.update_of_ne (fun ho => hk (congrArg keys ho)) ..
  cases desk with
  | kept value =>
    intro other ho
    rw [hne other ho]
    exact h other ho
  | line lookups =>
    obtain ⟨hn, hm, hf⟩ := h
    refine ⟨hn, fun other => ?_, fun other ho hs => ?_⟩
    · rw [hm other]
      exact and_congr_right fun ho => by rw [hne other ho]
    · exact hf other ho (hne other ho ▸ hs)

/-- A fresh lookup that joins a line waits in it. -/
theorem join (h : desk.Lined keys (keys lookup) standing) (hf : standing lookup = .fresh) :
    (desk.join lookup).Lined keys (keys lookup) (Function.update standing lookup .waiting) := by
  cases desk with
  | kept value => grind [Desk.join, Desk.Lined, Function.update_apply]
  | line lookups => grind [Desk.join, Desk.Lined, Function.update_apply]

/-- The first of a line may start to compute. -/
theorem start {lookups : List Nat} (h : (line lookups : Desk V).Lined keys (keys lookup) standing)
    (hh : lookups.head? = some lookup) :
    (line lookups : Desk V).Lined keys (keys lookup)
      (Function.update standing lookup .computing) := by
  have hmem := List.mem_of_mem_head? hh
  grind [Desk.Lined, Function.update_apply]

/-- A lookup that leaves has ended, and the others keep their places. -/
theorem leave (h : desk.Lined keys (keys lookup) standing) :
    (desk.leave lookup).Lined keys (keys lookup) (Function.update standing lookup .ended) := by
  cases desk with
  | kept value => grind [Desk.leave, Desk.Lined, Function.update_apply]
  | line lookups =>
    obtain ⟨hn, hm, hf⟩ := h
    refine ⟨hn.erase lookup, fun other => ?_, fun other ho hs => ?_⟩
    · rw [hn.mem_erase_iff, hm other]
      grind [Function.update_apply]
    · have hne : other ≠ lookup := by
        rintro rfl
        simp at hs
      rw [Function.update_of_ne hne] at hs
      have hhead := hf other ho hs
      cases lookups with
      | nil => cases hhead
      | cons first rest =>
        cases hhead
        rw [List.erase_cons_tail (by simpa using hne)]
        rfl

/-- When the value of a computation is kept, nobody computes any more. -/
theorem keep (h : desk.Lined keys (keys lookup) standing) (hc : standing lookup = .computing)
    (value : V) :
    (kept value).Lined keys (keys lookup) (Function.update standing lookup .ended) := by
  intro other ho hs
  have hne : other ≠ lookup := by
    rintro rfl
    simp at hs
  rw [Function.update_of_ne hne] at hs
  cases desk with
  | kept _ => exact h other ho hs
  | line lookups =>
    exact hne (Option.some.inj ((h.2.2 other ho hs).symm.trans (h.2.2 lookup rfl hc)))

/-- A line that is cleared is empty, and nobody stands in it. -/
theorem clear (h : desk.Lined keys key standing) :
    desk.clear.Lined keys key fun lookup => (standing lookup).release := by
  have hrelease : ∀ lookup, (standing lookup).release ≠ .waiting
      ∧ (standing lookup).release ≠ .computing := by
    intro lookup
    cases standing lookup <;> decide
  cases desk with
  | kept value => exact fun lookup _ => (hrelease lookup).2
  | line lookups => grind [Desk.clear, Desk.Lined]

end Desk.Lined

/-! ## Order -/

/-- A note about one lookup tells whether that one computes now. -/
theorem running_note {notes : List (Note E V)} {note : Note E V}
    {standing : Nat → Standing} {lookup : Nat} {state : Standing}
    (hr : ∀ other, Running other notes ↔ standing other = .computing)
    (hl : note.lookup? = some lookup)
    (hs : state = .computing ↔ note = .started lookup
      ∨ standing lookup = .computing ∧ ¬ note.Ends lookup) (other : Nat) :
    Running other (notes ++ [note])
      ↔ Function.update standing lookup state other = .computing := by
  rw [running_concat, hr]
  by_cases ho : other = lookup
  · subst ho
    rw [Function.update_self, hs]
  · have hne : note ≠ .started other := by
      rintro rfl
      exact ho (Option.some.inj hl)
    have hends : ¬ note.Ends other := by
      cases note <;> simp_all [Note.lookup?, Note.Ends, eq_comm]
    simp [ho, hne, hends]

namespace Desks

/-- The lookups are in line, and their notes tell how far they are and what is kept. -/
structure Orderly (keys : Nat → String) (desks : Desks E V) : Prop where
  lined : ∀ key, (desks.desk key).Lined keys key desks.standing
  running : ∀ lookup, Running lookup desks.notes ↔ desks.standing lookup = .computing
  started : ∀ lookup, .started lookup ∈ desks.notes →
    desks.standing lookup = .computing ∨ desks.standing lookup = .ended
  kept : ∀ key value, desks.desk key = .kept value ↔ Yields keys key value desks.notes
  inOrder : InOrder keys desks.notes

namespace Orderly

variable {keys : Nat → String} {desks : Desks E V} {lookup : Nat}

/-- Where nothing was looked up everything is in order. -/
theorem empty : Orderly keys ({} : Desks E V) where
  lined key := by simp [Desk.Lined]
  running lookup := by simp [Running]
  started lookup h := absurd h List.not_mem_nil
  kept key value := by simp [Yields]
  inOrder before note after h := by simp at h

section
variable (h : desks.Orderly keys)
include h

/-- While a lookup of the key computes nothing is kept. -/
theorem not_yields (hc : desks.standing lookup = .computing) (value : V) :
    ¬ Yields keys (keys lookup) value desks.notes := by
  rw [← h.kept]
  intro hd
  have hlined := h.lined (keys lookup)
  rw [hd] at hlined
  exact hlined lookup rfl hc

/-- The desks stay in order if they do so for the lookup that changes. -/
theorem put {visit : Visit E V}
    (hl : visit.desk.Lined keys (keys lookup)
      (Function.update desks.standing lookup visit.standing))
    (hr : ∀ other, Running other (desks.notes ++ visit.notes)
      ↔ Function.update desks.standing lookup visit.standing other = .computing)
    (hs : ∀ other, .started other ∈ visit.notes → other = lookup)
    (hd : .started lookup ∈ desks.notes ++ visit.notes →
      visit.standing = .computing ∨ visit.standing = .ended)
    (hk : ∀ key value, Yields keys key value (desks.notes ++ visit.notes)
      ↔ Function.update desks.desk (keys lookup) visit.desk key = .kept value)
    (hn : InOrder keys (desks.notes ++ visit.notes)) :
    (desks.put keys lookup visit).Orderly keys where
  lined key := by
    by_cases hkey : key = keys lookup
    · subst hkey
      simpa [Desks.put] using hl
    · simpa [Desks.put, hkey] using (h.lined key).of_ne hkey visit.standing
  running := hr
  started other ho := by
    by_cases hother : other = lookup
    · subst hother
      simpa [Desks.put] using hd ho
    · have hbefore := (List.mem_append.1 ho).resolve_right fun hv => hother (hs other hv)
      simpa [Desks.put, hother] using h.started other hbefore
  kept key value := (hk key value).symm
  inOrder := hn

/-- A lookup comes to its desk. -/
theorem join (hf : desks.standing lookup = .fresh) :
    (desks.put keys lookup
      ⟨(desks.desk (keys lookup)).join lookup, .waiting, []⟩).Orderly keys := by
  refine h.put ((h.lined _).join hf) ?_ (by simp) ?_ ?_ (by simpa using h.inOrder)
  · intro other
    have := h.running other
    grind [Function.update_apply]
  · intro hs
    simpa [hf] using h.started lookup (by simpa using hs)
  · intro key value
    by_cases hkey : key = keys lookup <;> simp [hkey, h.kept]

/-- A lookup that waits takes its turn. -/
theorem take (hw : desks.standing lookup = .waiting) :
    (desks.put keys lookup ((desks.desk (keys lookup)).take lookup)).Orderly keys := by
  have hnot : ¬ Running lookup desks.notes := by simp [h.running, hw]
  have hlined := h.lined (keys lookup)
  have hkept := h.kept (keys lookup)
  have hstarted : .started lookup ∉ desks.notes := fun hs => by
    simpa [hw] using h.started lookup hs
  cases hd : desks.desk (keys lookup) with
  | kept value =>
    rw [hd] at hlined hkept
    have hyields := (hkept value).1 rfl
    have hanswered : Note.Allowed keys desks.notes (.answered lookup (.ok value)) := by
      refine ⟨fun other ho => ?_, fun other ho => ?_, fun error he => nomatch he⟩
      · rw [Desk.kept.inj ((hkept other).2 ho)]
      · rwa [← Except.ok.inj ho]
    refine h.put hlined.leave ?_ (by simp [Desk.take]) (by simp [Desk.take, hstarted]) ?_
      (h.inOrder.concat hanswered)
    · exact running_note h.running rfl (by simp [Desk.take, hw])
    · intro key value
      simp [Desk.take, yields_concat, h.kept, ← hd]
  | line lookups =>
    rw [hd] at hlined hkept
    rw [Desk.take]
    split
    · rename_i hh
      have hallowed : Note.Allowed keys desks.notes (.started lookup) := by
        refine ⟨hstarted, fun other ho hr => ?_, fun value => by simp [← hkept]⟩
        have hhead := hlined.2.2 other ho ((h.running other).1 hr)
        obtain rfl := Option.some.inj (hh.symm.trans hhead)
        exact hnot hr
      refine h.put (hlined.start hh) ?_ (by simp) (by simp) ?_ (h.inOrder.concat hallowed)
      · exact running_note h.running rfl (by simp)
      · intro key value
        simp [yields_concat, h.kept, ← hd]
    · refine h.put ?_ ?_ (by simp) (by simp [hstarted]) ?_ (by simpa using h.inOrder)
      · simpa [← hw] using hlined
      · simpa [← hw] using h.running
      · intro key value
        simp [h.kept, ← hd]

/-- A turn keeps everything in order. -/
theorem turn (lookup : Nat) : (desks.act keys (.turn lookup)).Orderly keys := by
  rw [Desks.act]
  cases hs : desks.standing lookup with
  | fresh =>
    have hwaiting : (desks.put keys lookup
        ⟨(desks.desk (keys lookup)).join lookup, .waiting, []⟩).standing lookup = .waiting := by
      simp [Desks.put]
    have htake := (h.join hs).take hwaiting
    rw [put_put] at htake
    simpa [Desk.turn, Desks.put] using htake
  | waiting => exact h.take hs
  | computing =>
    rw [Desk.turn, ← hs, put_self]
    exact h
  | ended =>
    rw [Desk.turn, ← hs, put_self]
    exact h

/-- So does the end of a computation. -/
theorem finish (lookup : Nat) (outcome : Except E V) :
    (desks.act keys (.finish lookup outcome)).Orderly keys := by
  rw [Desks.act, Desk.finish]
  split
  · rename_i hc
    have hnot := h.not_yields hc
    have hyields : ∀ key value, Yields keys key value (desks.notes ++ [.computed lookup outcome])
        ↔ Yields keys key value desks.notes ∨ keys lookup = key ∧ outcome = .ok value := by
      intro key value
      simp [yields_concat, eq_comm]
    have hcomputed : Note.Allowed keys desks.notes (.computed lookup outcome) :=
      ⟨(h.running lookup).2 hc, hnot⟩
    have hanswered : Note.Allowed keys (desks.notes ++ [.computed lookup outcome])
        (.answered lookup outcome) := by
      refine ⟨fun value hv => ?_, fun value hv => ?_, fun error he => by simp [he]⟩
      · exact (((hyields _ value).1 hv).resolve_left (hnot value)).2
      · exact (hyields _ value).2 (.inr ⟨rfl, hv⟩)
    refine h.put ?_ ?_ (by simp) (by simp) ?_ ?_
    · cases outcome with
      | ok value => exact (h.lined _).keep hc value
      | error error => exact (h.lined _).leave
    · have hended : ∀ other, Running other (desks.notes ++ [.computed lookup outcome])
          ↔ Function.update desks.standing lookup .ended other = .computing :=
        running_note h.running rfl (by simp [Note.Ends])
      intro other
      rw [List.append_cons, ← Function.update_idem (f := desks.standing)]
      exact running_note hended rfl (by simp) other
    · intro key value
      have hdesk : desks.desk (keys lookup) ≠ .kept value := fun hd =>
        hnot value ((h.kept _ _).1 hd)
      rw [List.append_cons, yields_concat, hyields, ← h.kept]
      by_cases hkey : key = keys lookup
      · cases outcome <;> simp [Desk.settle, hkey, hdesk]
      · simp [hkey, Ne.symm hkey]
    · rw [List.append_cons]
      exact (h.inOrder.concat hcomputed).concat hanswered
  · rw [put_self]
    exact h

/-- So does dropping a lookup, be it in line or computing. -/
theorem drop (lookup : Nat) : (desks.act keys (.drop lookup)).Orderly keys := by
  rw [Desks.act, Desk.drop]
  split
  · rw [put_self]
    exact h
  · refine h.put (h.lined _).leave ?_ (by simp) (by simp) ?_ (h.inOrder.concat trivial)
    · exact running_note h.running rfl (by simp [Note.Ends])
    · intro key value
      rw [yields_concat, ← h.kept]
      by_cases hkey : key = keys lookup <;> simp [hkey]

/-- So does releasing all lookups at once. -/
theorem release : (desks.act keys .release).Orderly keys := by
  have hrelease : ∀ other, desks.standing other = .computing ∨ desks.standing other = .ended →
      (desks.standing other).release = .ended := by
    rintro other (ho | ho) <;> rw [ho] <;> rfl
  refine ⟨fun key => (h.lined key).clear, ?_, ?_, ?_, h.inOrder.concat trivial⟩
  · intro other
    simp only [Desks.act, running_concat, Note.Ends]
    cases desks.standing other <;> simp [Standing.release]
  · intro other hs
    refine .inr (hrelease other (h.started other ?_))
    simpa [Desks.act] using hs
  · intro key value
    simp [Desks.act, yields_concat, h.kept]

/-- Whatever happens, the lookups and their notes stay in order. -/
theorem act (event : Event E V) : (desks.act keys event).Orderly keys := by
  cases event with
  | turn lookup => exact h.turn lookup
  | finish lookup outcome => exact h.finish lookup outcome
  | drop lookup => exact h.drop lookup
  | release => exact h.release

end

end Orderly

/-! ## One key -/

/-- The second desks are what is left of the first ones when only the lookups of one key are
considered. -/
structure Restricts (keys : Nat → String) (key : String) (desks restricted : Desks E V) :
    Prop where
  desk : restricted.desk key = desks.desk key
  standing : ∀ lookup, keys lookup = key → restricted.standing lookup = desks.standing lookup
  fresh : ∀ lookup, keys lookup ≠ key → restricted.standing lookup = .fresh
  notes : restricted.notes = desks.notes.filter (Note.isAt keys key)

namespace Restricts

variable {keys : Nat → String} {key : String} {desks restricted : Desks E V} {lookup : Nat}
  {visit : Visit E V}

/-- A lookup of the key changes in both. -/
theorem put (h : Restricts keys (keys lookup) desks restricted)
    (hn : ∀ note ∈ visit.notes, note.lookup? = some lookup) :
    Restricts keys (keys lookup) (desks.put keys lookup visit)
      (restricted.put keys lookup visit) where
  desk := by simp [Desks.put]
  standing other ho := by
    by_cases hother : other = lookup
    · simp [Desks.put, hother]
    · simp [Desks.put, hother, h.standing other ho]
  fresh other ho := by
    have hother : other ≠ lookup := fun he => ho (congrArg keys he)
    simp [Desks.put, hother, h.fresh other ho]
  notes := by
    have hat : ∀ note ∈ visit.notes, note.isAt keys (keys lookup) := by
      intro note hm
      simp [Note.isAt, hn note hm]
    simp only [Desks.put]
    rw [List.filter_append, List.filter_eq_self.2 hat, h.notes]

/-- A lookup of another key changes in the first. -/
theorem put_away (h : Restricts keys key desks restricted) (hk : keys lookup ≠ key)
    (hn : ∀ note ∈ visit.notes, note.lookup? = some lookup) :
    Restricts keys key (desks.put keys lookup visit) restricted where
  desk := by simp [Desks.put, Ne.symm hk, h.desk]
  standing other ho := by
    have hother : other ≠ lookup := fun he => hk (he ▸ ho)
    simp [Desks.put, hother, h.standing other ho]
  fresh := h.fresh
  notes := by
    have hat : ∀ note ∈ visit.notes, ¬ note.isAt keys key := by
      intro note hm
      simp [Note.isAt, hn note hm, hk]
    simp only [Desks.put]
    rw [List.filter_append, List.filter_eq_nil_iff.2 hat, List.append_nil, h.notes]

/-- An event at the key does to the restricted desks what it does to all desks. -/
theorem act (h : Restricts keys key desks restricted) {event : Event E V}
    (he : event.isAt keys key) :
    Restricts keys key (desks.act keys event) (restricted.act keys event) := by
  cases event with
  | turn lookup =>
    obtain rfl : keys lookup = key := by simpa [Event.isAt, Event.lookup?] using he
    simp only [Desks.act, h.desk, h.standing lookup rfl]
    exact h.put fun note hm => Desk.lookup?_of_mem_turn hm
  | finish lookup outcome =>
    obtain rfl : keys lookup = key := by simpa [Event.isAt, Event.lookup?] using he
    simp only [Desks.act, h.desk, h.standing lookup rfl]
    exact h.put fun note hm => Desk.lookup?_of_mem_finish hm
  | drop lookup =>
    obtain rfl : keys lookup = key := by simpa [Event.isAt, Event.lookup?] using he
    simp only [Desks.act, h.desk, h.standing lookup rfl]
    exact h.put fun note hm => Desk.lookup?_of_mem_drop hm
  | release =>
    refine ⟨by simp [Desks.act, h.desk], fun lookup hk => ?_, fun lookup hk => ?_, ?_⟩
    · simp [Desks.act, h.standing lookup hk]
    · simp [Desks.act, h.fresh lookup hk, Standing.release]
    · simp only [Desks.act]
      rw [List.filter_append, h.notes]
      rfl

/-- An event at another key does not reach the restricted desks. -/
theorem act_away (h : Restricts keys key desks restricted) {event : Event E V}
    (he : ¬ event.isAt keys key) : Restricts keys key (desks.act keys event) restricted := by
  cases event with
  | turn lookup =>
    refine h.put_away ?_ fun note hm => Desk.lookup?_of_mem_turn hm
    simpa [Event.isAt, Event.lookup?] using he
  | finish lookup outcome =>
    refine h.put_away ?_ fun note hm => Desk.lookup?_of_mem_finish hm
    simpa [Event.isAt, Event.lookup?] using he
  | drop lookup =>
    refine h.put_away ?_ fun note hm => Desk.lookup?_of_mem_drop hm
    simpa [Event.isAt, Event.lookup?] using he
  | release => exact absurd rfl he

end Restricts

/-- What happens at one key does not depend on what happens at others. -/
theorem restricts_run (keys : Nat → String) (key : String) (events : List (Event E V)) :
    Restricts keys key (run keys events) (run keys (events.filter (Event.isAt keys key))) := by
  induction events using List.reverseRecOn with
  | nil => exact ⟨rfl, fun _ _ => rfl, fun _ _ => rfl, rfl⟩
  | append_singleton events event ih =>
    rw [List.filter_append, run, List.foldl_append]
    by_cases he : event.isAt keys key
    · rw [List.filter_cons_of_pos he, run, List.foldl_append]
      exact ih.act he
    · rw [List.filter_cons_of_neg he, List.filter_nil, List.append_nil]
      exact ih.act_away he

end Desks

end QueryEngine.Memo
