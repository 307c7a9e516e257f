import QueryEngine.Proofs.Connection.Backward
import QueryEngine.Proofs.Connection.Interval

/-!
# What a page knows of its surroundings

`pageInfo` says whether the collection goes on before and behind a page. It compares the position of
the first item with zero and that of the last one with the size of the collection.
`Connection.pageInfo_exact_iff`: what it says of the members before the page is always right. What
it says of those behind it is right just if the size does not mislead it: positions number the
members that the collection yields, and a collection may say that it has more.
-/

namespace QueryEngine

variable {W O C T : Type}

section

variable {interval : Interval} {elements : List (Element O)} {items : List (Item O)}

/-- An interval is as long as the items that it covers. -/
theorem Interval.Covers.length (h : interval.Covers elements items) :
    items.length = interval.stop - interval.start := by
  rw [← List.length_map (f := Item.position), h.positions, List.Ico.length]

/-- The items of an interval are a run of the collection. -/
theorem Interval.Covers.map_element (h : interval.Covers elements items) :
    items.map Item.element
      = (elements.drop interval.start).take (interval.stop - interval.start) := by
  have placed : ∀ (index : Nat) (hindex : index < items.length),
      elements[interval.start + index]? = some items[index].element := by
    intro index hindex
    have hrange : index < interval.stop - interval.start := h.length ▸ hindex
    have position : (items.map Item.position)[index]? = some (interval.start + index) := by
      rw [h.positions, List.Ico, List.getElem?_range' hrange, Nat.one_mul]
    rw [List.getElem?_map, List.getElem?_eq_getElem hindex] at position
    rw [← Option.some.inj position]
    exact h.elements _ (List.getElem_mem hindex)
  refine List.ext_getElem? fun index => ?_
  rw [List.getElem?_map, List.getElem?_take, List.getElem?_drop, ← h.length]
  split
  case isTrue hindex => rw [placed index hindex, List.getElem?_eq_getElem hindex]; rfl
  case isFalse hindex => rw [List.getElem?_eq_none (Nat.le_of_not_lt hindex)]; rfl

/-- An interval with items lies within the collection. -/
theorem Interval.Covers.within (h : interval.Covers elements items) (hitems : items ≠ []) :
    interval.start < interval.stop ∧ interval.stop ≤ elements.length := by
  have counted := congrArg List.length h.map_element
  rw [List.length_map, h.length, List.length_take, List.length_drop] at counted
  have some : 0 < items.length := List.length_pos_iff.2 hitems
  rw [h.length] at some
  omega

/-- An interval with items parts the collection: into as many members as its start says before the
items, the items, and the members from its stop on. -/
theorem Interval.Covers.exists_append (h : interval.Covers elements items) (hitems : items ≠ []) :
    ∃ before after, elements = before ++ items.map Item.element ++ after
      ∧ before.length = interval.start := by
  obtain ⟨hlt, hstop⟩ := h.within hitems
  refine ⟨elements.take interval.start, elements.drop interval.stop, ?_, ?_⟩
  · rw [h.map_element, List.append_assoc,
      show interval.stop = interval.start + (interval.stop - interval.start) by omega,
      Nat.add_sub_cancel_left, ← List.drop_drop, List.take_append_drop, List.take_append_drop]
  · rw [List.length_take]
    omega

end

namespace Connection

variable {host : Host W O C T} {connection : Connection W O C} {items : List (Item O)}

/-- What the page info of an interval of positions compares. -/
theorem pageInfo_Ico {start stop : Nat} (hlt : start < stop)
    (h : items.map Item.position = List.Ico start stop) (size : Nat) :
    (pageInfo size items).lookup "hasPreviousPage" = some (.bool (decide (0 < start)))
      ∧ (pageInfo size items).lookup "hasNextPage" = some (.bool (decide (stop < size))) := by
  have head : items.head?.map Item.position = some start := by
    rw [← List.head?_map, h, List.Ico, List.head?_range', if_neg (by omega)]
  have last : items.getLast?.map Item.position = some (stop - 1) := by
    rw [← List.getLast?_map, h, List.Ico, List.getLast?_range', if_neg (by omega)]
    congr 1
    omega
  have next : stop - 1 + 1 = stop := by omega
  constructor
  · simp [pageInfo, head]
  · simp [pageInfo, List.lookup_cons, last, next]

/-- A client that asks for the page info gets that of the page, whether the page is computed for it
or was before. -/
theorem call_pageInfo {world world' : W}
    (hpage : connection.paginate host world = (.ok items, world')) (arguments : Fields)
    {known : Option (Page O)} (hknown : known = none ∨ known = some (.ok items)) :
    ((connection.call host "pageInfo" arguments).runWith (connection.paginate host) known world).1
      = some (.ok (.object (.json (connection.pageInfoType.getD "")
        (pageInfo (connection.backing.length host) items)))) := by
  rcases hknown with rfl | rfl
  · simp [Action.runWith, call, bind, Step.bind, Step.runWith, Action.page, hpage, pure, Except.map]
  · simp [Action.runWith, call, bind, Step.bind, Step.runWith, Action.page, pure, Except.map]

/-- What the page info says of a page that is not empty, for the engine's own operations in any
order and any number. The page is a run of the collection. That there is a previous page means that
the collection has a member before the run. That there is a next page means that the size of the
collection is greater than the position behind the run. So it means that the collection has a member
behind the run just if the size allows for the members that the collection yields: where the run is
the last, it must not be greater than their number, and where it is not, it must be greater than the
position behind the run. -/
theorem pageInfo_exact_iff {slices : List Slice}
    (hoperations : connection.operations = slices.map Slice.operation) {world world' : W}
    (hpage : connection.paginate host world = (.ok items, world')) (hitems : items ≠ []) :
    ∃ before after info,
      connection.backing.elements host = before ++ items.map Item.element ++ after
      ∧ items.map Item.position = List.Ico before.length (before.length + items.length)
      ∧ (∀ arguments known, known = none ∨ known = some (.ok items) →
        ((connection.call host "pageInfo" arguments).runWith (connection.paginate host) known
          world).1 = some (.ok (.object (.json (connection.pageInfoType.getD "") info))))
      ∧ info.lookup "hasPreviousPage" = some (.bool (! before.isEmpty))
      ∧ info.lookup "hasNextPage" = some (.bool (decide
        (before.length + items.length < connection.backing.length host)))
      ∧ (info.lookup "hasNextPage" = some (.bool (! after.isEmpty))
        ↔ (after = [] →
            connection.backing.length host ≤ (connection.backing.elements host).length)
          ∧ (after ≠ [] →
            before.length + items.length < connection.backing.length host)) := by
  have page := Page.paginate_slices slices connection.maxPageSize
    (connection.backing.elements host) connection.arguments world
  rw [← hoperations, show Page.paginate connection.operations connection.maxPageSize
    (connection.backing.elements host) connection.arguments world = (.ok items, world') from hpage]
    at page
  revert page
  cases slices.findSome? (Slice.refusal? connection.arguments) with
  | some error => nofun
  | none =>
    rintro ⟨_, ⟨⟩, covers⟩
    obtain ⟨before, after, hparts, hbefore⟩ := covers.exists_append hitems
    obtain ⟨hlt, -⟩ := covers.within hitems
    have positions := covers.positions
    have counted := covers.length
    rw [← hbefore] at positions counted hlt
    rw [show Interval.stop _ = before.length + items.length by omega] at positions hlt
    obtain ⟨previous, next⟩ :=
      pageInfo_Ico hlt positions (connection.backing.length host)
    refine ⟨before, after, _, hparts, positions,
      fun arguments _ => call_pageInfo hpage arguments, ?_, next, ?_⟩
    · rw [previous]
      cases before <;> simp
    · have size := congrArg List.length hparts
      rw [List.length_append, List.length_append, List.length_map] at size
      rw [next, size]
      cases after with
      | nil => simp
      | cons => simp

/-- The page of the last three of five letters has room for two. It knows that letters lie before
it, and that one lies behind it. -/
theorem pageInfo_exact_iff_letters :
    (letters.backward 3 none).operations = Slice.relay.map Slice.operation
      ∧ (letters.backward 3 none).paginate sparseHost ()
        = (.ok [⟨2, .value (.string "c")⟩, ⟨3, .value (.string "d")⟩], ())
      ∧ ∃ (before after : List (Element Unit)) (info : Fields),
        (letters.backward 3 none).backing.elements sparseHost
          = before ++ [.value (.string "c"), .value (.string "d")] ++ after
        ∧ before.length = 2 ∧ after ≠ []
        ∧ info.lookup "hasPreviousPage" = some (.bool true)
        ∧ info.lookup "hasNextPage" = some (.bool true) := by
  have page : (letters.backward 3 none).paginate sparseHost ()
      = (.ok [⟨2, .value (.string "c")⟩, ⟨3, .value (.string "d")⟩], ()) := rfl
  have operations : (letters.backward 3 none).operations = Slice.relay.map Slice.operation := rfl
  refine ⟨operations, page, ?_⟩
  obtain ⟨before, after, info, hparts, hpositions, -, hprevious, hnext, -⟩ :=
    pageInfo_exact_iff operations page (List.cons_ne_nil _ _)
  have first : before.length = 2 := by
    have head := congrArg List.head? hpositions
    simpa [List.Ico, List.range', eq_comm] using head
  have last : after.length = 1 := by
    have size := congrArg List.length hparts
    rw [List.length_append, List.length_append, first] at size
    exact Nat.add_left_cancel size.symm
  refine ⟨before, after, info, hparts, first, List.ne_nil_of_length_eq_add_one last, ?_, ?_⟩
  · cases before with
    | nil => cases first
    | cons => exact hprevious
  · rw [hnext, first]
    rfl

/-- A host with one collection of four places, of which only the first and the last are taken. -/
def gappedHost : Host Unit Unit Unit Unit :=
  let member (place : Nat) : Option (Element Unit) :=
    if place = 0 then some (.value (.string "a"))
    else if place = 3 then some (.value (.string "b"))
    else none
  { sparseHost with
    length := fun _ => 4
    element? := fun _ => member
    elements := fun _ => (List.range 4).filterMap member }

/-- The member at the last place is the last of the collection and makes up the page, and still the
page info claims that there is a next page: the member's position is one, since the places that are
not taken are not numbered, but they do count for the size. -/
theorem pageInfo_exact_not :
    (sparseConnection.backward 1 none).operations = Slice.relay.map Slice.operation
      ∧ gappedHost.length () = 4 ∧ gappedHost.element? () 3 = some (.value (.string "b"))
      ∧ (sparseConnection.backward 1 none).backing.elements gappedHost
        = [.value (.string "a"), .value (.string "b")]
      ∧ (sparseConnection.backward 1 none).paginate gappedHost ()
        = (.ok [⟨1, .value (.string "b")⟩], ())
      ∧ ∃ info : Fields,
        (((sparseConnection.backward 1 none).call gappedHost "pageInfo" []).runWith
            ((sparseConnection.backward 1 none).paginate gappedHost) none ()).1
          = some (.ok (.object (.json "" info)))
        ∧ info.lookup "hasNextPage" = some (.bool true) :=
  ⟨rfl, rfl, rfl, rfl, rfl, _, rfl, rfl⟩

end Connection

end QueryEngine
