import Mathlib.Data.List.Intervals
import QueryEngine.Proofs.Connection.Paging

/-!
# Pages as intervals

The engine's own operations compute with intervals of positions. A cursor or a count moves one end
of the interval (`Interval.move`), and the page is what the collection has at the positions that are
left (`Interval.Covers`). `Page.paginate_slices`: so it is for all of them, in whatever order they
are declared and however often, unless the value of an argument is no cursor or no count; then the
first operation with such a value fails the page.
-/

namespace QueryEngine

variable {W O : Type}

namespace Slice

/-- The value that an operation is applied for, if its argument is there and not null. -/
def given? (arguments : Fields) (slice : Slice) : Option Json :=
  match arguments.lookup slice.argument with
  | none | some .null => none
  | some value => some value

/-- The number that a value stands for: a count of items, or the position that a cursor points
at. -/
def number? (slice : Slice) (value : Json) : Option Nat :=
  match slice with
  | .first | .last => value.asUnsigned?
  | .after | .before => value.asString?.bind Cursor.decode?

/-- The error for a value that stands for no number. -/
def refusal (slice : Slice) (value : Json) : FieldError :=
  match slice, value.asString? with
  | .first, _ => .invalid "'first' must be a non-negative integer"
  | .last, _ => .invalid "'last' must be a non-negative integer"
  | .after, none => .invalid "'after' must be a cursor"
  | .before, none => .invalid "'before' must be a cursor"
  | .after, some cursor | .before, some cursor => .invalid ("invalid cursor '" ++ cursor ++ "'")

/-- The error of an operation, if it is applied for a value that stands for no number. -/
def refusal? (arguments : Fields) (slice : Slice) : Option FieldError :=
  (slice.given? arguments).bind fun value =>
    if (slice.number? value).isNone then some (slice.refusal value) else none

/-- A number of items is given by an argument that is a number without a sign, or else refused. -/
theorem count_eq (argument : String) (value : Json) :
    count argument value = value.asUnsigned?.elim
      (.error (.invalid ("'" ++ argument ++ "' must be a non-negative integer"))) .ok := by
  rw [count]
  cases value.asUnsigned? <;> rfl

/-- A position is given by an argument that is a cursor, or else refused. -/
theorem position_eq (argument : String) (value : Json) :
    position argument value = value.asString?.elim
      (.error (.invalid ("'" ++ argument ++ "' must be a cursor")))
      fun cursor => (Cursor.decode? cursor).elim
        (.error (.invalid ("invalid cursor '" ++ cursor ++ "'"))) .ok := by
  rw [position]
  cases value.asString? with
  | none => rfl
  | some cursor =>
    simp only [Cursor.decode, Option.elim_some]
    cases Cursor.decode? cursor <;> rfl

/-- An operation reads its value as a number, or refuses it. -/
theorem bound_eq (slice : Slice) (value : Json) :
    slice.bound value = (slice.number? value).elim (.error (slice.refusal value)) .ok := by
  cases slice <;> simp only [bound, number?, refusal, count_eq, position_eq]
  case first | last => rfl
  case after | before => cases value.asString? <;> rfl

end Slice

/-- The positions from `start` on and before `stop`. -/
structure Interval where
  start : Nat
  stop : Nat
deriving DecidableEq, Repr

namespace Interval

/-- The interval that an operation with the number `n` leaves of another. -/
def move (interval : Interval) (slice : Slice) (n : Nat) : Interval :=
  match slice with
  | .first => ⟨interval.start, min interval.stop (interval.start + n)⟩
  | .last => ⟨max interval.start (interval.stop - n), interval.stop⟩
  | .after => ⟨max interval.start (n + 1), interval.stop⟩
  | .before => ⟨interval.start, min interval.stop n⟩

/-- The interval that an operation leaves of another for the arguments of a field: the same if it is
not applied. -/
def narrow (arguments : Fields) (interval : Interval) (slice : Slice) : Interval :=
  ((slice.given? arguments).bind slice.number?).elim interval (interval.move slice)

/-- The interval that the limit on the size of a page leaves of another. -/
def cap (maxSize : Option Nat) (interval : Interval) : Interval :=
  maxSize.elim interval (interval.move .first)

/-- The first numbers of an interval are one that ends earlier. -/
theorem take_Ico (start stop n : Nat) :
    (List.Ico start stop).take n = List.Ico start (min stop (start + n)) := by
  refine List.ext_getElem ?_ fun index _ _ => by simp [List.Ico]
  rw [List.length_take, List.Ico.length, List.Ico.length]
  omega

/-- The last numbers of an interval are one that begins later. -/
theorem drop_Ico (start stop n : Nat) :
    (List.Ico start stop).drop (stop - start - n) = List.Ico (max start (stop - n)) stop := by
  refine List.ext_getElem ?_ fun index hindex _ => ?_
  · rw [List.length_drop, List.Ico.length, List.Ico.length]
    omega
  · rw [List.length_drop, List.Ico.length] at hindex
    simp only [List.Ico, List.getElem_drop, List.getElem_range']
    omega

/-- The items are those of a collection at the positions of the interval, in order. -/
structure Covers (interval : Interval) (elements : List (Element O)) (items : List (Item O)) :
    Prop where
  positions : items.map Item.position = List.Ico interval.start interval.stop
  elements : ∀ item ∈ items, elements[item.position]? = some item.element

section

variable {interval : Interval} {elements : List (Element O)} {items : List (Item O)}

/-- All members of a collection are its items at the positions from zero on. -/
theorem covers_whole (elements : List (Element O)) :
    Covers ⟨0, elements.length⟩ elements (Page.whole elements) := by
  refine ⟨by rw [Page.map_position_whole, List.Ico, Nat.sub_zero], fun item hitem => ?_⟩
  obtain ⟨pair, hpair, rfl⟩ := List.mem_map.1 hitem
  exact List.mk_mem_zipIdx_iff_getElem?.1 hpair

/-- An operation keeps the items at the positions of the interval that it moves to. Counts are taken
from the items that are left, so this needs that they lie without a gap. -/
theorem Covers.keep (h : interval.Covers elements items) (slice : Slice) (n : Nat) :
    (interval.move slice n).Covers elements (slice.keep n items) := by
  refine ⟨?_, fun item hitem => h.elements item ?_⟩
  · have counted : items.length = interval.stop - interval.start := by
      rw [← List.length_map (f := Item.position), h.positions, List.Ico.length]
    cases slice with
    | first => rw [Slice.keep, move, List.map_take, h.positions, take_Ico]
    | last => rw [Slice.keep, move, List.map_drop, h.positions, counted, drop_Ico]
    | after =>
      rw [Slice.keep, move, ← List.Ico.filter_le, ← h.positions, List.filter_map]
      rfl
    | before =>
      rw [Slice.keep, move, ← List.Ico.filter_lt, ← h.positions, List.filter_map]
      rfl
  · cases slice with
    | first => exact List.mem_of_mem_take hitem
    | last => exact List.mem_of_mem_drop hitem
    | after | before => exact List.mem_of_mem_filter hitem

/-- So does the limit on the size of a page. -/
theorem Covers.cap (h : interval.Covers elements items) (maxSize : Option Nat) :
    (interval.cap maxSize).Covers elements (Page.cap maxSize items) := by
  cases maxSize with
  | none => exact h
  | some size => exact h.keep .first size

end

end Interval

namespace Page

/-- One of the engine's own operations is skipped, fails or goes on with the items it keeps, as its
argument says. -/
theorem applyAll_operation (arguments : Fields) (slice : Slice) (rest : List (PageOperation W O))
    (items : List (Item O)) (world : W) :
    applyAll arguments (slice.operation :: rest) items world
      = (slice.given? arguments).elim (applyAll arguments rest items world) fun value =>
        (slice.number? value).elim (.error (slice.refusal value), world) fun n =>
          applyAll arguments rest (slice.keep n items) world := by
  have run : ∀ value, (slice.operation : PageOperation W O).run items value world
      = ((slice.number? value).elim (.error (slice.refusal value))
        fun n => .ok (slice.keep n items), world) := by
    intro value
    rw [show (slice.operation : PageOperation W O).run items value world
      = (slice.apply value items, world) from rfl, Slice.apply, Slice.bound_eq]
    cases slice.number? value <;> rfl
  rw [applyAll, Slice.given?, show (slice.operation : PageOperation W O).argument = slice.argument
    from rfl]
  cases arguments.lookup slice.argument with
  | none => rfl
  | some value =>
    cases value with
    | null => rfl
    | _ =>
      simp only [run, Option.elim_some]
      cases slice.number? _ <;> rfl

/-- What a run of the engine's own operations does to the items of an interval. -/
theorem applyAll_slices (arguments : Fields) (elements : List (Element O)) (world : W)
    (slices : List Slice) {interval : Interval} {items : List (Item O)}
    (h : interval.Covers elements items) :
    match slices.findSome? (Slice.refusal? arguments) with
    | some error =>
      applyAll arguments (slices.map Slice.operation) items world = (.error error, world)
    | none => ∃ kept, applyAll arguments (slices.map Slice.operation) items world
          = (.ok kept, world)
        ∧ (slices.foldl (Interval.narrow arguments) interval).Covers elements kept := by
  induction slices generalizing interval items with
  | nil => exact ⟨items, rfl, h⟩
  | cons slice rest ih =>
    rw [List.map_cons, applyAll_operation, List.findSome?_cons, List.foldl_cons, Slice.refusal?,
      Interval.narrow]
    cases slice.given? arguments with
    | none => exact ih h
    | some value =>
      simp only [Option.bind_some, Option.elim_some]
      cases slice.number? value with
      | none => rfl
      | some n => exact ih (h.keep slice n)

/-- The page of a collection under the engine's own operations, in any order and any number. The
first whose value is no cursor or no count fails the page; if there is none, the page has the items
at the positions of an interval: all positions at first, then moved by each operation that is
applied and at last by the limit on the size of a page. -/
theorem paginate_slices (slices : List Slice) (maxSize : Option Nat) (elements : List (Element O))
    (arguments : Fields) (world : W) :
    match slices.findSome? (Slice.refusal? arguments) with
    | some error =>
      paginate (slices.map Slice.operation) maxSize elements arguments world
        = (.error error, world)
    | none => ∃ items,
        paginate (slices.map Slice.operation) maxSize elements arguments world
          = (.ok items, world)
        ∧ ((slices.foldl (Interval.narrow arguments) ⟨0, elements.length⟩).cap maxSize).Covers
          elements items := by
  have run := applyAll_slices arguments elements world slices (Interval.covers_whole elements)
  revert run
  cases slices.findSome? (Slice.refusal? arguments) with
  | some error =>
    intro failed
    rw [paginate, failed]
    rfl
  | none =>
    rintro ⟨kept, applied, hkept⟩
    exact ⟨cap maxSize kept, by rw [paginate, applied]; rfl, hkept.cap maxSize⟩

/-- The order of the operations matters: the last two of the first three are not the first three of
the last two. -/
example :
    let arguments : Fields := [("first", .ofNat 3), ("last", .ofNat 2)]
    [Slice.first, .last].foldl (Interval.narrow arguments) ⟨0, 5⟩ = ⟨1, 3⟩
      ∧ [Slice.last, .first].foldl (Interval.narrow arguments) ⟨0, 5⟩ = ⟨3, 5⟩ := by
  decide

end Page

end QueryEngine
