import QueryEngine.Proofs.Connection.Paging

/-!
# Paging backward

A client pages backward through a connection: it selects the last items, and as long as there is a
previous page it selects the last items before the start of the page that it got.
`Connection.pagesBack` is that client, and it comes to an end. It asks for runs of items that make
up the collection together, but the limit on the size of a page cuts the end off a run that is
longer, and the next run ends where the last one started. So the client has the whole collection in
the end just if no run that it asks for is longer than the limit
(`pagesBack_eq_elements_iff`).
-/

namespace QueryEngine

variable {W O C T : Type}

namespace Slice

/-- The operation keeps as many items as it is told, from the end. -/
theorem apply_last {size : Nat} (h : Width.Unsigned 64 size) (items : List (Item O)) :
    apply .last (.ofNat size) items = .ok (items.drop (items.length - size)) := by
  have fits : (Json.ofNat size).asUnsigned? = some size := by
    rw [Json.ofNat, Json.asUnsigned?, Number.asUnsigned?, if_pos h, Int.toNat_natCast]
  have counted : bound .last (.ofNat size) = .ok size := by rw [bound, count, fits]
  rw [apply, counted]
  rfl

/-- The operation keeps the items before the cursor. -/
theorem apply_before {position : Nat} (h : position < Width.values 64) (items : List (Item O)) :
    apply .before (.string (Cursor.encode position)) items
      = .ok (keep .before position items) := by
  have read : ∀ cursor, bound .before (.string cursor) = Cursor.decode cursor := fun _ => rfl
  have pointed : bound .before (.string (Cursor.encode position)) = .ok position :=
    (read _).trans (Cursor.decode_encode h)
  rw [apply, pointed]
  rfl

end Slice

namespace Page

/-- The items before a position are as many as the position says. -/
theorem keep_before_whole (elements : List (Element O)) (position : Nat) :
    Slice.keep .before position (whole elements) = (whole elements).take position := by
  have numbered : ∀ (rest : List (Element O)) (start : Nat),
      ((rest.zipIdx start).map fun pair => (⟨pair.2, pair.1⟩ : Item O)).filter
          (fun item => item.position < position)
        = ((rest.zipIdx start).map fun pair => ⟨pair.2, pair.1⟩).take (position - start) := by
    intro rest
    induction rest with
    | nil => simp
    | cons element rest ih =>
      intro start
      rw [List.zipIdx_cons, List.map_cons]
      by_cases h : start < position
      · rw [List.filter_cons_of_pos (by simpa using h), ih,
          show position - start = (position - (start + 1)) + 1 by omega, List.take_succ_cons]
      · rw [List.filter_cons_of_neg (by simpa using h), ih,
          show position - (start + 1) = 0 by omega, show position - start = 0 by omega,
          List.take_zero, List.take_zero]
  exact numbered elements 0

/-- The last items before a position are a run. -/
theorem drop_take_whole (elements : List (Element O)) (stop size : Nat)
    (h : stop ≤ elements.length) :
    ((whole elements).take stop).drop (((whole elements).take stop).length - size)
      = ((whole elements).drop (stop - size)).take (stop - (stop - size)) := by
  have counted : ((whole elements).take stop).length = stop := by
    simp [whole, h]
  rw [counted, List.drop_take]

/-- The limit on the size of a page leaves of a run a shorter one. -/
theorem cap_take (maxSize : Option Nat) (items : List (Item O)) (size : Nat) :
    cap maxSize (items.take size) = items.take (min (maxSize.getD size) size) := by
  cases maxSize with
  | none => simp [cap]
  | some limit => exact List.take_take

end Page

namespace Connection

/-- The connection as a client selects it that pages backward: with the engine's own operations, a
size and, if it goes on, the cursor before which it does. -/
def backward (connection : Connection W O C) (size : Nat) (cursor? : Option String) :
    Connection W O C :=
  { connection with
    operations := Slice.relay.map Slice.operation
    arguments :=
      ("last", .ofNat size) :: (cursor?.map fun cursor => ("before", .string cursor)).toList }

/-- The nodes of all pages in the order in which the client gets them, from the end or from a cursor
backward, if it comes to an end within the fuel and can read every page. -/
def pagesBack (host : Host W O C T) (connection : Connection W O C) (size : Nat) :
    Nat → Option String → W → Option (List (List (FieldValue O C T)) × W)
  | 0, _, _ => none
  | fuel + 1, cursor?, world =>
    let visited := connection.backward size cursor?
    match (visited.view host).runWith (visited.paginate host) none world with
    | (none, _, _) => none
    | (some view, _, world) =>
      match view.info.lookup "hasPreviousPage", view.info.lookup "startCursor" with
      | some (.bool false), _ => some ([view.nodes], world)
      | some (.bool true), some (.string cursor) =>
        (pagesBack host connection size fuel (some cursor) world).map fun (rest, world) =>
          (view.nodes :: rest, world)
      | _, _ => none

/-- Where a client that pages backward stands: before the end, or before a cursor. -/
inductive StandsAt (length : Nat) : Option String → Nat → Prop
  | last : StandsAt length none length
  | before {stop : Nat} (h : stop ≤ length) :
    StandsAt length (some (Cursor.encode stop)) stop

/-- A cursor stands within the collection, or right behind it. -/
theorem StandsAt.le {length stop : Nat} {cursor? : Option String}
    (h : StandsAt length cursor? stop) : stop ≤ length := by
  cases h with
  | last => exact Nat.le_refl _
  | before h => exact h

section
variable {host : Host W O C T} {connection : Connection W O C} {size stop : Nat}
  {cursor? : Option String}

/-- A page that a client asks for on its way back is a run of the items, cut to the limit. -/
theorem paginate_backward (hsize : Width.Unsigned 64 size)
    (hcollection : (connection.backing.elements host).length < Width.values 64)
    (hstands : StandsAt (connection.backing.elements host).length cursor? stop) (world : W) :
    (connection.backward size cursor?).paginate host world
      = (.ok (Page.cap connection.maxPageSize
          (((Page.whole (connection.backing.elements host)).drop (stop - size)).take
            (stop - (stop - size)))), world) := by
  have counted : Json.ofNat size ≠ .null := by
    intro h
    cases h
  have sliced : Page.applyAll (connection.backward size cursor?).arguments
      [Slice.operation .after, Slice.operation .before, Slice.operation .first,
        Slice.operation .last] (Page.whole (connection.backing.elements host)) world
      = (.ok (((Page.whole (connection.backing.elements host)).take stop).drop
          (((Page.whole (connection.backing.elements host)).take stop).length - size)),
        world) := by
    cases hstands with
    | last =>
      have all : (Page.whole (connection.backing.elements host)).take
          (connection.backing.elements host).length
            = Page.whole (connection.backing.elements host) := by
        rw [List.take_of_length_le]
        simp [Page.whole]
      rw [all, Page.applyAll_absent rfl, Page.applyAll_absent rfl, Page.applyAll_absent rfl,
        Page.applyAll_slice rfl counted (Slice.apply_last hsize _)]
      rfl
    | before h =>
      have pointed : Json.string (Cursor.encode stop) ≠ .null := by
        intro h
        cases h
      have before := Slice.apply_before (Nat.lt_of_le_of_lt h hcollection)
        (Page.whole (connection.backing.elements host))
      rw [Page.keep_before_whole] at before
      rw [Page.applyAll_absent rfl, Page.applyAll_slice rfl pointed before,
        Page.applyAll_absent rfl, Page.applyAll_slice rfl counted (Slice.apply_last hsize _)]
      rfl
  rw [Page.drop_take_whole _ _ _ hstands.le] at sliced
  have ordered : (connection.backward size cursor?).operations
      = [Slice.operation .after, Slice.operation .before, Slice.operation .first,
        Slice.operation .last] := rfl
  have kept : (connection.backward size cursor?).backing = connection.backing := rfl
  rw [paginate, Page.paginate, ordered, kept, sliced]
  rfl

/-- The client is done with a page before which nothing lies. -/
theorem pagesBack_of_start {world : W} {items : List (Item O)}
    (h : (connection.backward size cursor?).paginate host world = (.ok items, world))
    (hstart : (items.map Item.position).head?.any (0 < ·) = false) (fuel : Nat) :
    connection.pagesBack host size (fuel + 1) cursor? world
      = some ([items.map fun item => item.element.toFieldValue], world) := by
  have first : (pageInfo (connection.backing.length host) items).lookup "hasPreviousPage"
      = some (.bool false) := by
    rw [← hstart, List.head?_map]
    rfl
  rw [pagesBack]
  simp only [view_runWith h]
  rw [show (connection.backward size cursor?).backing = connection.backing from rfl, first]

/-- The client goes on before a page that has something before it. -/
theorem pagesBack_of_previous {world : W} {items : List (Item O)} {position : Nat}
    (h : (connection.backward size cursor?).paginate host world = (.ok items, world))
    (hfirst : (items.map Item.position).head? = some position) (hprevious : 0 < position)
    (fuel : Nat) :
    connection.pagesBack host size (fuel + 1) cursor? world
      = (connection.pagesBack host size fuel (some (Cursor.encode position)) world).map
        fun (rest, world) =>
          ((items.map fun item => item.element.toFieldValue) :: rest, world) := by
  rw [List.head?_map] at hfirst
  have more : (pageInfo (connection.backing.length host) items).lookup "hasPreviousPage"
      = some (.bool true) := by
    simp [pageInfo, hfirst, hprevious]
  have cursor : (pageInfo (connection.backing.length host) items).lookup "startCursor"
      = some (.string (Cursor.encode position)) := by
    simp [pageInfo, List.lookup_cons, hfirst]
  rw [pagesBack]
  simp only [view_runWith h]
  rw [show (connection.backward size cursor?).backing = connection.backing from rfl, more, cursor]

/-- The nodes of the page that the client gets for a run of elements: those within the limit. -/
def pageOf (connection : Connection W O C) (run : List (Element O)) : List (FieldValue O C T) :=
  (run.take (connection.maxPageSize.getD run.length)).map Element.toFieldValue

/-- From every position backward, the client comes to an end. It asks for runs that make up what
lies before the position, all but the first of them full. -/
theorem exists_pagesBack_from
    (hcollection : (connection.backing.elements host).length < Width.values 64)
    (hpositive : 1 ≤ size) (hsize : Width.Unsigned 64 size) (hmax : connection.maxPageSize ≠ some 0)
    (world : W) (stop : Nat) {cursor? : Option String}
    (hstands : StandsAt (connection.backing.elements host).length cursor? stop) :
    ∃ first rest, (first :: rest).flatten = (connection.backing.elements host).take stop
      ∧ first.length ≤ size ∧ (∀ run ∈ rest, run.length = size)
      ∧ ∀ fuel, stop < fuel → connection.pagesBack host size fuel cursor? world
        = some ((first :: rest).reverse.map connection.pageOf, world) := by
  induction stop using Nat.strongRecOn generalizing cursor? with
  | ind stop ih =>
    -- the page covers `k` elements of the run that ends at `stop`
    let run := ((connection.backing.elements host).drop (stop - size)).take (stop - (stop - size))
    let k := min (connection.maxPageSize.getD (stop - (stop - size))) (stop - (stop - size))
    let items := ((Page.whole (connection.backing.elements host)).drop (stop - size)).take k
    have hle := hstands.le
    have hrun : run.length = stop - (stop - size) := by
      simp only [run, List.length_take, List.length_drop]
      omega
    have page : (connection.backward size cursor?).paginate host world = (.ok items, world) := by
      rw [paginate_backward hsize hcollection hstands world, Page.cap_take]
    have nodes : (items.map fun item => (item.element.toFieldValue : FieldValue O C T))
        = connection.pageOf run := by
      have elements : items.map Item.element
          = run.take (connection.maxPageSize.getD run.length) := by
        rw [hrun, List.take_take, List.map_take, List.map_drop, Page.map_element_whole]
      rw [pageOf, ← elements, List.map_map]
      rfl
    have positions : items.map Item.position
        = List.range' (stop - size) (min k ((connection.backing.elements host).length
          - (stop - size))) :=
      Page.map_position_run (connection.backing.elements host) (stop - size) k
    by_cases hprevious : size < stop
    · have hk : k ≠ 0 := by
        have hlimit : connection.maxPageSize.getD (stop - (stop - size)) ≠ 0 := by
          cases hm : connection.maxPageSize with
          | none =>
            simp only [Option.getD_none]
            omega
          | some limit =>
            rintro rfl
            exact hmax hm
        omega
      have head : (items.map Item.position).head? = some (stop - size) := by
        rw [positions, List.head?_range', if_neg (by omega)]
      obtain ⟨first, rest, hflat, hfirst, hrest, hpages⟩ :=
        ih (stop - size) (by omega) (.before (by omega))
      refine ⟨first, rest ++ [run], ?_, hfirst, ?_, fun fuel hfuel => ?_⟩
      · have hcut : ((connection.backing.elements host).take (stop - size))
            = ((connection.backing.elements host).take stop).take (stop - size) := by
          rw [List.take_take, Nat.min_eq_left (by omega)]
        have hrun : run = ((connection.backing.elements host).take stop).drop (stop - size) := by
          rw [List.drop_take]
        rw [← List.cons_append, List.flatten_append, hflat, List.flatten_singleton, hcut, hrun,
          List.take_append_drop]
      · intro other ho
        rcases List.mem_append.1 ho with ho | ho
        · exact hrest other ho
        · rw [List.mem_singleton.1 ho, hrun]
          omega
      · obtain ⟨fuel, rfl⟩ : ∃ less, fuel = less + 1 := ⟨fuel - 1, by omega⟩
        rw [pagesBack_of_previous page head (by omega), hpages fuel (by omega), nodes,
          ← List.cons_append, List.reverse_append]
        rfl
    · have head : (items.map Item.position).head?.any (0 < ·) = false := by
        rw [positions, List.head?_range']
        split
        · rfl
        · simp only [Option.any_some, decide_eq_false_iff_not]
          omega
      have hwhole : run = (connection.backing.elements host).take stop := by
        have hnone : stop - size = 0 := by omega
        simp only [run, hnone, List.drop_zero, Nat.sub_zero]
      refine ⟨run, [], ?_, ?_, nofun, fun fuel hfuel => ?_⟩
      · rw [List.flatten_singleton, hwhole]
      · omega
      · obtain ⟨fuel, rfl⟩ : ∃ less, fuel = less + 1 := ⟨fuel - 1, by omega⟩
        rw [pagesBack_of_start page head, nodes]
        rfl

/-- Pages show in order what lies in their runs, but for what the limit cuts off. -/
theorem flatten_map_pageOf_sublist (connection : Connection W O C)
    (runs : List (List (Element O))) :
    (runs.map (connection.pageOf (T := T))).flatten.Sublist
      (runs.flatten.map Element.toFieldValue) := by
  induction runs with
  | nil => exact List.Sublist.refl _
  | cons run rest ih =>
    rw [List.map_cons, List.flatten_cons, List.flatten_cons, List.map_append]
    exact ((List.take_sublist _ _).map _).append ih

/-- Pages show all that lies in their runs just if no run is longer than the limit. -/
theorem flatten_map_pageOf_eq_iff (connection : Connection W O C) (runs : List (List (Element O))) :
    (runs.map (connection.pageOf (T := T))).flatten = runs.flatten.map Element.toFieldValue
      ↔ ∀ run ∈ runs, ∀ limit ∈ connection.maxPageSize, run.length ≤ limit := by
  have hpage : ∀ run, (connection.pageOf run : List (FieldValue O C T)).length = run.length
      ↔ ∀ limit ∈ connection.maxPageSize, run.length ≤ limit := by
    intro run
    rw [pageOf, List.length_map, List.length_take]
    cases connection.maxPageSize with
    | none => simp
    | some limit =>
      simp only [Option.getD_some, Option.mem_def, Option.some.injEq, forall_eq']
      omega
  constructor
  · intro h
    induction runs with
    | nil => nofun
    | cons run rest ih =>
      rw [List.map_cons, List.flatten_cons, List.flatten_cons, List.map_append] at h
      have hshort : (connection.pageOf run : List (FieldValue O C T)).length ≤ run.length := by
        rw [pageOf, List.length_map]
        exact List.length_take_le' _ _
      have hrest := (flatten_map_pageOf_sublist (T := T) connection rest).length_le
      have hlength := congrArg List.length h
      simp only [List.length_append] at hlength
      rw [List.length_map] at hlength
      have hrun : (connection.pageOf run : List (FieldValue O C T)).length = run.length := by
        omega
      obtain ⟨-, htail⟩ := List.append_inj h (by rw [hrun, List.length_map])
      exact List.forall_mem_cons.2 ⟨(hpage run).1 hrun, ih htail⟩
  · intro h
    have hall : ∀ run ∈ runs, connection.pageOf run
        = (run.map Element.toFieldValue : List (FieldValue O C T)) := by
      intro run hr
      have hlength : run.length ≤ connection.maxPageSize.getD run.length := by
        cases hm : connection.maxPageSize with
        | none => exact Nat.le_refl _
        | some limit => exact h run hr limit hm
      rw [pageOf, List.take_of_length_le hlength]
    rw [List.map_congr_left hall, List.map_flatten]

/-- A client that pages backward comes to an end, whatever the size of its pages and whatever the
limit on them, if neither is zero. It asks for runs of elements that make up the collection, all but
the first of them full, and gets of each run what the limit leaves. So read backward its pages have
each member of the collection once at most, and in order; and they have all of them just if the
limit cuts nothing off: there is none, or it allows the size asked for or the whole collection. -/
theorem pagesBack_eq_elements_iff
    (hcollection : Width.Unsigned 64 (connection.backing.elements host).length)
    (hpositive : 1 ≤ size) (hsize : Width.Unsigned 64 size) (hmax : connection.maxPageSize ≠ some 0)
    (world : W) :
    ∃ pages, (∀ fuel, (connection.backing.elements host).length < fuel →
        connection.pagesBack host size fuel none world = some (pages, world))
      ∧ (∃ first rest, (first :: rest).flatten = connection.backing.elements host
        ∧ first.length ≤ size ∧ (∀ run ∈ rest, run.length = size)
        ∧ pages.reverse = (first :: rest).map connection.pageOf)
      ∧ pages.reverse.flatten.Sublist
        ((connection.backing.elements host).map Element.toFieldValue)
      ∧ (pages.reverse.flatten = (connection.backing.elements host).map Element.toFieldValue
        ↔ ∀ limit ∈ connection.maxPageSize,
          min size (connection.backing.elements host).length ≤ limit) := by
  have hvalues : (connection.backing.elements host).length < Width.values 64 := by
    exact_mod_cast hcollection.2
  obtain ⟨first, rest, hflat, hfirst, hrest, hpages⟩ :=
    exists_pagesBack_from hvalues hpositive hsize hmax world _ .last
  rw [List.take_length] at hflat
  have hback : ((first :: rest).reverse.map (connection.pageOf (T := T))).reverse
      = (first :: rest).map connection.pageOf := by
    rw [List.map_reverse, List.reverse_reverse]
  refine ⟨_, hpages, ⟨first, rest, hflat, hfirst, hrest, hback⟩, ?_, ?_⟩
  · rw [hback, ← hflat]
    exact flatten_map_pageOf_sublist _ _
  · rw [hback, ← hflat, flatten_map_pageOf_eq_iff]
    have hlength : (first :: rest).flatten.length = first.length + rest.flatten.length := by
      rw [List.flatten_cons, List.length_append]
    rw [hlength]
    constructor
    · intro h limit hm
      cases rest with
      | nil =>
        have hone := h first (List.mem_cons_self ..) limit hm
        rw [List.flatten_nil, List.length_nil]
        omega
      | cons run rest =>
        have hfull := hrest run (List.mem_cons_self ..)
        have hone := h run (List.mem_cons_of_mem _ (List.mem_cons_self ..)) limit hm
        omega
    · intro h run hr limit hm
      have hlimit := h limit hm
      rcases List.mem_cons.1 hr with rfl | hr
      · omega
      · have hfull := hrest run hr
        have hwithin : run.length ≤ rest.flatten.length :=
          (List.sublist_flatten_of_mem hr).length_le
        omega

end

/-- A connection with five members and at most two items on a page. -/
def letters : Connection Unit Unit Unit :=
  { sparseConnection with
    backing := .values [.string "a", .string "b", .string "c", .string "d", .string "e"] }

/-- With pages of two items the client has all five members. -/
theorem pagesBack_eq_elements_letters :
    Width.Unsigned 64 (letters.backing.elements sparseHost).length ∧ (1 : Nat) ≤ 2
      ∧ Width.Unsigned 64 (2 : Nat) ∧ letters.maxPageSize ≠ some 0
      ∧ ∃ pages, (∀ fuel, 5 < fuel → letters.pagesBack sparseHost 2 fuel none ()
          = some (pages, ()))
        ∧ pages.reverse.flatten
          = [.value (.string "a"), .value (.string "b"), .value (.string "c"),
            .value (.string "d"), .value (.string "e")] := by
  have hcollection : Width.Unsigned 64 (letters.backing.elements sparseHost).length := by decide
  have hsize : Width.Unsigned 64 (2 : Nat) := by decide
  obtain ⟨pages, hpages, -, -, hiff⟩ :=
    pagesBack_eq_elements_iff hcollection (by decide) hsize (by decide) ()
  refine ⟨hcollection, by decide, hsize, by decide, pages, hpages, hiff.2 ?_⟩
  intro limit hm
  cases hm
  decide

/-- Asked for the last three of five items and given two, a client loses the last one: the page
before ends where the run started. -/
theorem pagesBack_ne_elements_letters :
    (letters.backing.elements sparseHost).length = letters.backing.length sparseHost
      ∧ ∀ fuel, ∃ pages, letters.pagesBack sparseHost 3 (fuel + 2) none () = some (pages, ())
        ∧ pages = [[.value (.string "c"), .value (.string "d")],
          [.value (.string "a"), .value (.string "b")]]
        ∧ pages.reverse.flatten
          ≠ (letters.backing.elements sparseHost).map Element.toFieldValue := by
  have hsize : Width.Unsigned 64 (3 : Nat) := by decide
  have hcollection : (letters.backing.elements sparseHost).length < Width.values 64 := by decide
  have last := paginate_backward hsize hcollection .last ()
  have hstands : StandsAt (letters.backing.elements sparseHost).length
      (some (Cursor.encode 2)) 2 := .before (by decide)
  have before := paginate_backward hsize hcollection hstands ()
  refine ⟨rfl, fun fuel => ⟨_, ?_, rfl, ?_⟩⟩
  · rw [pagesBack_of_previous last rfl (by decide), pagesBack_of_start before rfl]
    rfl
  · intro h
    exact absurd (congrArg List.length h) (by decide)

end Connection

end QueryEngine
