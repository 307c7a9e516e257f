import QueryEngine.Connection.State
import QueryEngine.Proofs.Connection.Cursors

/-!
# Paging forward

A client pages through a connection: it selects the first items, and as long as there is a next
page it selects the first items after the end of the last one. `Connection.pages` is that client.
`exists_pages_eq_elements`: it comes to an end, and its pages together are the members of the
collection, each once and in order, whatever the size of the pages and the limit on it.
-/

namespace QueryEngine

variable {W O C T : Type}

namespace Slice

/-- The operation keeps as many items as it is told, from the front. -/
theorem apply_first {size : Nat} (h : Width.Unsigned 64 size) (items : List (Item O)) :
    apply .first (.ofNat size) items = .ok (items.take size) := by
  have fits : (Json.ofNat size).asUnsigned? = some size := by
    rw [Json.ofNat, Json.asUnsigned?, Number.asUnsigned?, if_pos h, Int.toNat_natCast]
  have counted : bound .first (.ofNat size) = .ok size := by rw [bound, count, fits]
  rw [apply, counted]
  rfl

/-- The operation keeps the items behind the cursor. -/
theorem apply_after {position : Nat} (h : position < Width.values 64) (items : List (Item O)) :
    apply .after (.string (Cursor.encode position)) items = .ok (keep .after position items) := by
  have read : ∀ cursor, bound .after (.string cursor) = Cursor.decode cursor := fun _ => rfl
  have pointed : bound .after (.string (Cursor.encode position)) = .ok position :=
    (read _).trans (Cursor.decode_encode h)
  rw [apply, pointed]
  rfl

end Slice

namespace Page

/-- The whole collection has its elements for elements. -/
theorem map_element_whole (elements : List (Element O)) :
    (whole elements).map Item.element = elements := by
  simp only [whole, List.map_map]
  exact List.zipIdx_map_fst 0 elements

/-- The whole collection has its positions for positions, from the first one on. -/
theorem map_position_whole (elements : List (Element O)) :
    (whole elements).map Item.position = List.range' 0 elements.length := by
  simp only [whole, List.map_map]
  exact List.zipIdx_map_snd 0 elements

/-- The items after a position are those behind it. -/
theorem keep_after_whole (elements : List (Element O)) (position : Nat) :
    Slice.keep .after position (whole elements) = (whole elements).drop (position + 1) := by
  have numbered : ∀ (rest : List (Element O)) (start : Nat),
      ((rest.zipIdx start).map fun pair => (⟨pair.2, pair.1⟩ : Item O)).filter
          (fun item => position < item.position)
        = ((rest.zipIdx start).map fun pair => ⟨pair.2, pair.1⟩).drop
          (position + 1 - start) := by
    intro rest
    induction rest with
    | nil => simp
    | cons element rest ih =>
      intro start
      rw [List.zipIdx_cons, List.map_cons]
      by_cases h : position < start
      · rw [List.filter_cons_of_pos (by simpa using h), ih,
          show position + 1 - start = 0 by omega, show position + 1 - (start + 1) = 0 by omega,
          List.drop_zero, List.drop_zero]
      · rw [List.filter_cons_of_neg (by simpa using h), ih,
          show position + 1 - start = (position + 1 - (start + 1)) + 1 by omega,
          List.drop_succ_cons]
  exact numbered elements 0

/-- The positions of a run of items. -/
theorem map_position_run (elements : List (Element O)) (start size : Nat) :
    (((whole elements).drop start).take size).map Item.position
      = List.range' start (min size (elements.length - start)) := by
  rw [List.map_take, List.map_drop, map_position_whole]
  refine List.ext_getElem (by simp) fun index _ _ => ?_
  simp [List.getElem_range']

/-- The elements of a run of items. -/
theorem map_element_run (elements : List (Element O)) (start size : Nat) :
    (((whole elements).drop start).take size).map Item.element
      = (elements.drop start).take (min size (elements.length - start)) := by
  rw [List.map_take, List.map_drop, map_element_whole, ← List.length_drop, ← List.take_eq_take_min]

/-- An operation without its argument does nothing. -/
theorem applyAll_absent {arguments : Fields} {operation : PageOperation W O}
    (h : arguments.lookup operation.argument = none) (rest : List (PageOperation W O))
    (items : List (Item O)) (world : W) :
    applyAll arguments (operation :: rest) items world = applyAll arguments rest items world := by
  rw [applyAll, h]

/-- One of the engine's own operations does its work and leaves the world alone. -/
theorem applyAll_slice {arguments : Fields} {slice : Slice} {value : Json}
    (h : arguments.lookup slice.argument = some value) (hvalue : value ≠ .null)
    {items kept : List (Item O)} (hkept : slice.apply value items = .ok kept)
    (rest : List (PageOperation W O)) (world : W) :
    applyAll arguments (slice.operation :: rest) items world
      = applyAll arguments rest kept world := by
  have found : arguments.lookup (slice.operation (W := W) (O := O)).argument = some value := h
  have answer : slice.operation.run items value world = (.ok kept, world) :=
    congrArg (·, world) hkept
  rw [applyAll, found]
  cases value with
  | null => exact absurd rfl hvalue
  | _ => simp only [answer]

/-- The limit on the size of a page makes the size smaller, but leaves it above zero. -/
theorem exists_cap_take {size : Nat} {maxSize : Option Nat} (hsize : 1 ≤ size)
    (hmax : maxSize ≠ some 0) :
    ∃ n, 1 ≤ n ∧ n ≤ size ∧
      ∀ items : List (Item O), cap maxSize (items.take size) = items.take n := by
  cases maxSize with
  | none => exact ⟨size, hsize, Nat.le_refl size, fun _ => rfl⟩
  | some limit =>
    have positive : limit ≠ 0 := fun e => hmax (congrArg some e)
    exact ⟨min limit size, Nat.le_min.mpr ⟨Nat.one_le_iff_ne_zero.mpr positive, hsize⟩,
      Nat.min_le_right limit size, fun items => List.take_take⟩

end Page

/-- What a client reads of a connection: the nodes of the page and where the page lies. -/
structure View (O C T : Type) where
  nodes : List (FieldValue O C T)
  info : Fields

namespace Connection

/-- The connection as a client selects it that pages forward: with the engine's own operations, a
size and, if it goes on, the cursor after which it does. -/
def forward (connection : Connection W O C) (size : Nat) (cursor? : Option String) :
    Connection W O C :=
  { connection with
    operations := Slice.relay.map Slice.operation
    arguments :=
      ("first", .ofNat size) :: (cursor?.map fun cursor => ("after", .string cursor)).toList }

/-- Reads the nodes and the page info. -/
def view (host : Host W O C T) (connection : Connection W O C) :
    Action W O (Option (View O C T)) := do
  match ← connection.call host "nodes" [], ← connection.call host "pageInfo" [] with
  | some (.ok (.list nodes)), some (.ok (.object (.json _ info))) => return some ⟨nodes, info⟩
  | _, _ => return none

/-- The nodes of all pages, from the start or from a cursor on, if the client comes to an end within
the fuel and can read every page. -/
def pages (host : Host W O C T) (connection : Connection W O C) (size : Nat) :
    Nat → Option String → W → Option (List (List (FieldValue O C T)) × W)
  | 0, _, _ => none
  | fuel + 1, cursor?, world =>
    let visited := connection.forward size cursor?
    match (visited.view host).runWith (visited.paginate host) none world with
    | (none, _, _) => none
    | (some view, _, world) =>
      match view.info.lookup "hasNextPage", view.info.lookup "endCursor" with
      | some (.bool false), _ => some ([view.nodes], world)
      | some (.bool true), some (.string cursor) =>
        (pages host connection size fuel (some cursor) world).map fun (rest, world) =>
          (view.nodes :: rest, world)
      | _, _ => none

/-- The cursor to go on at a position: that of the one before. -/
def cursorBefore : Nat → Option String
  | 0 => none
  | position + 1 => some (Cursor.encode position)

/-- A view of a connection shows the page that is made, and keeps it for the other accessors. -/
theorem view_runWith {host : Host W O C T} {connection : Connection W O C} {world world' : W}
    {items : List (Item O)} (h : connection.paginate host world = (.ok items, world')) :
    (connection.view host).runWith (connection.paginate host) none world
      = (some ⟨items.map fun item => item.element.toFieldValue,
          pageInfo (connection.backing.length host) items⟩, some (.ok items), world') := by
  simp [view, Action.runWith, call, bind, Step.bind, Step.runWith, Action.page, h, pure, Except.map,
    nodes]

/-- A page that a client asks for on its way is a run of the items, cut to the limit. -/
theorem paginate_forward {host : Host W O C T} {connection : Connection W O C} {size start : Nat}
    (hsize : Width.Unsigned 64 size) (hstart : start ≤ Width.values 64) (world : W) :
    (connection.forward size (cursorBefore start)).paginate host world
      = (.ok (Page.cap connection.maxPageSize
          (((Page.whole (connection.backing.elements host)).drop start).take size)), world) := by
  have counted : Json.ofNat size ≠ .null := nofun
  have sliced : Page.applyAll (connection.forward size (cursorBefore start)).arguments
      [Slice.operation .after, Slice.operation .before, Slice.operation .first,
        Slice.operation .last] (Page.whole (connection.backing.elements host)) world
      = (.ok (((Page.whole (connection.backing.elements host)).drop start).take size), world) := by
    cases start with
    | zero =>
      rw [Page.applyAll_absent rfl, Page.applyAll_absent rfl,
        Page.applyAll_slice rfl counted (Slice.apply_first hsize _), Page.applyAll_absent rfl]
      rfl
    | succ position =>
      have pointed : Json.string (Cursor.encode position) ≠ .null := nofun
      have after := Slice.apply_after (Nat.lt_of_succ_le hstart)
        (Page.whole (connection.backing.elements host))
      rw [Page.keep_after_whole] at after
      rw [Page.applyAll_slice rfl pointed after, Page.applyAll_absent rfl,
        Page.applyAll_slice rfl counted (Slice.apply_first hsize _), Page.applyAll_absent rfl]
      rfl
  have ordered : (connection.forward size (cursorBefore start)).operations
      = [Slice.operation .after, Slice.operation .before, Slice.operation .first,
        Slice.operation .last] := rfl
  have kept : (connection.forward size (cursorBefore start)).backing = connection.backing := rfl
  rw [paginate, Page.paginate, ordered, kept, sliced]
  rfl

/-- The client is done with a page behind which nothing lies. -/
theorem pages_of_end {host : Host W O C T} {connection : Connection W O C} {size : Nat}
    {cursor? : Option String} {world : W} {items : List (Item O)}
    (h : (connection.forward size cursor?).paginate host world = (.ok items, world))
    (hend : (items.map Item.position).getLast?.any (· + 1 < connection.backing.length host)
      = false)
    (fuel : Nat) :
    connection.pages host size (fuel + 1) cursor? world
      = some ([items.map fun item => item.element.toFieldValue], world) := by
  have last : (pageInfo (connection.backing.length host) items).lookup "hasNextPage"
      = some (.bool false) := by
    rw [← hend, List.getLast?_map]
    rfl
  rw [pages]
  simp only [view_runWith h]
  rw [show (connection.forward size cursor?).backing = connection.backing from rfl, last]

/-- The client goes on behind a page that has something behind it. -/
theorem pages_of_next {host : Host W O C T} {connection : Connection W O C} {size : Nat}
    {cursor? : Option String} {world : W} {items : List (Item O)} {position : Nat}
    (h : (connection.forward size cursor?).paginate host world = (.ok items, world))
    (hlast : (items.map Item.position).getLast? = some position)
    (hnext : position + 1 < connection.backing.length host) (fuel : Nat) :
    connection.pages host size (fuel + 1) cursor? world
      = (connection.pages host size fuel (cursorBefore (position + 1)) world).map
        fun (rest, world) =>
          ((items.map fun item => item.element.toFieldValue) :: rest, world) := by
  rw [List.getLast?_map] at hlast
  have more : (pageInfo (connection.backing.length host) items).lookup "hasNextPage"
      = some (.bool true) := by
    simp [pageInfo, List.lookup_cons, hlast, hnext]
  have cursor : (pageInfo (connection.backing.length host) items).lookup "endCursor"
      = some (.string (Cursor.encode position)) := by
    simp [pageInfo, List.lookup_cons, hlast]
  rw [pages]
  simp only [view_runWith h]
  rw [show (connection.forward size cursor?).backing = connection.backing from rfl, more, cursor]
  rfl

/-- From every position on, the client comes to an end with the rest of the collection. -/
theorem exists_pages_from {host : Host W O C T} {connection : Connection W O C} {size : Nat}
    (hlength : (connection.backing.elements host).length ≤ connection.backing.length host)
    (hcollection : Width.Unsigned 64 (connection.backing.length host))
    (hpositive : 1 ≤ size) (hsize : Width.Unsigned 64 size) (hmax : connection.maxPageSize ≠ some 0)
    (world : W) (start : Nat) (hstart : start ≤ (connection.backing.elements host).length) :
    ∃ pages, (∀ fuel, (connection.backing.elements host).length - start < fuel →
        connection.pages host size fuel (cursorBefore start) world = some (pages, world))
      ∧ pages.flatten = ((connection.backing.elements host).drop start).map Element.toFieldValue
      ∧ ∀ page ∈ pages, page.length ≤ size := by
  obtain ⟨n, hn, hle, hcap⟩ := Page.exists_cap_take (O := O) hpositive hmax
  have hvalues : connection.backing.length host < Width.values 64 := by
    exact_mod_cast hcollection.2
  induction hrest : (connection.backing.elements host).length - start
    using Nat.strongRecOn generalizing start with
  | ind rest ih =>
    -- the page covers `k` elements from `start` on
    let k := min n ((connection.backing.elements host).length - start)
    let items := ((Page.whole (connection.backing.elements host)).drop start).take n
    have page : (connection.forward size (cursorBefore start)).paginate host world
        = (.ok items, world) := by
      rw [paginate_forward hsize (by omega) world, hcap]
    have positions : items.map Item.position = List.range' start k :=
      Page.map_position_run (connection.backing.elements host) start n
    have nodes : (items.map fun item => (item.element.toFieldValue : FieldValue O C T))
        = (((connection.backing.elements host).drop start).take k).map Element.toFieldValue := by
      rw [← Page.map_element_run, List.map_map]
      rfl
    have short : (items.map fun item => (item.element.toFieldValue : FieldValue O C T)).length
        ≤ size := by
      rw [List.length_map]
      exact Nat.le_trans (List.length_take_le n _) hle
    by_cases hnext : k ≠ 0 ∧ start + k < connection.backing.length host
    · have last : (items.map Item.position).getLast? = some (start + k - 1) := by
        rw [positions, List.getLast?_range', if_neg hnext.1]
      have next : start + k - 1 + 1 = start + k := by omega
      obtain ⟨later, hlater, hflat, hshort⟩ :=
        ih ((connection.backing.elements host).length - (start + k)) (by omega) (start + k)
          (by omega) rfl
      refine ⟨_ :: later, fun fuel hfuel => ?_, ?_, List.forall_mem_cons.mpr ⟨short, hshort⟩⟩
      · obtain ⟨fuel, rfl⟩ : ∃ less, fuel = less + 1 := ⟨fuel - 1, by omega⟩
        rw [pages_of_next page last (by omega), next, hlater fuel (by omega)]
        rfl
      · rw [List.flatten_cons, hflat, nodes, ← List.map_append, ← List.drop_drop,
          List.take_append_drop]
    · have last : (items.map Item.position).getLast?.any (· + 1 < connection.backing.length host)
          = false := by
        rw [positions, List.getLast?_range']
        split
        · rfl
        · simp only [Option.any_some, decide_eq_false_iff_not]
          omega
      refine ⟨[_], fun fuel hfuel => ?_, ?_, List.forall_mem_cons.mpr ⟨short, nofun⟩⟩
      · obtain ⟨fuel, rfl⟩ : ∃ less, fuel = less + 1 := ⟨fuel - 1, by omega⟩
        exact pages_of_end page last fuel
      · rw [List.flatten_singleton, nodes, List.take_of_length_le]
        rw [List.length_drop]
        omega

/-- A client that pages forward comes to an end with all members of the collection, each once and in
order: whatever the size of its pages and whatever the limit on them, if neither is zero. Sizes and
positions are numbers of 64 bits, and a collection has no more members than it says. -/
theorem exists_pages_eq_elements {host : Host W O C T} {connection : Connection W O C} {size : Nat}
    (hlength : (connection.backing.elements host).length ≤ connection.backing.length host)
    (hcollection : Width.Unsigned 64 (connection.backing.length host))
    (hpositive : 1 ≤ size) (hsize : Width.Unsigned 64 size) (hmax : connection.maxPageSize ≠ some 0)
    (world : W) :
    ∃ pages, (∀ fuel, (connection.backing.elements host).length < fuel →
        connection.pages host size fuel none world = some (pages, world))
      ∧ pages.flatten = (connection.backing.elements host).map Element.toFieldValue
      ∧ ∀ page ∈ pages, page.length ≤ size :=
  exists_pages_from hlength hcollection hpositive hsize hmax world 0 (Nat.zero_le _)

/-- A host with one collection, which says that it has five members and yields only three. -/
def sparseHost : Host Unit Unit Unit Unit where
  typeName _ := "Object"
  lookup _ _ world := (none, world)
  call _ _ _ world := (none, world)
  length _ := 5
  element? _ _ := none
  elements _ := [.value (.string "a"), .value (.string "b"), .value (.string "c")]
  capability _ _ _ world := (none, world)
  poll _ world := (.ready (.ok .null), world)
  cancelled _ := false

/-- The connection of that collection, with at most two items on a page. -/
def sparseConnection : Connection Unit Unit Unit where
  type := "Connection"
  edgeType := none
  pageInfoType := none
  backing := .host ()
  operations := []
  arguments := []
  maxPageSize := some 2

/-- Asked for three items and given two at a time, a client has the whole collection in the end. -/
theorem exists_pages_sparseConnection :
    (sparseConnection.backing.elements sparseHost).length
        ≤ sparseConnection.backing.length sparseHost
      ∧ Width.Unsigned 64 (sparseConnection.backing.length sparseHost)
      ∧ Width.Unsigned 64 (3 : Nat) ∧ sparseConnection.maxPageSize ≠ some 0
      ∧ ∃ pages, (∀ fuel, 3 < fuel →
          sparseConnection.pages sparseHost 3 fuel none () = some (pages, ()))
        ∧ pages.flatten
          = [.value (.string "a"), .value (.string "b"), .value (.string "c")]
        ∧ ∀ page ∈ pages, page.length ≤ 3 :=
  ⟨by decide, by decide, by decide, by decide,
    exists_pages_eq_elements
      (by decide : (sparseConnection.backing.elements sparseHost).length
        ≤ sparseConnection.backing.length sparseHost)
      (by decide) (by decide) (by decide) (by decide) ()⟩

end Connection

end QueryEngine
