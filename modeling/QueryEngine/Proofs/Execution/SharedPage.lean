import QueryEngine.Proofs.Execution.Accessors
import QueryEngine.Proofs.Execution.PageRuns

/-!
# The fields of a connection share its page

Whatever fields are selected on a connection, one run of its operations makes the page that they
are answered from, and none is run if no field asks for the page (`SharedRun`). In the response
the count of a connection, the numbers of its nodes and edges, the elements in both, and the
cursors of the edges and of the page info all come from that page (`SharesPage`). This is so at
every moment of every execution (`execute_sharesPages`).
-/

namespace QueryEngine.Execution

open Moment

variable {W O C T : Type}

/-! ## Slots of getters -/

/-- The slot of a field of the object that the getter answers, and its type. -/
def GetterSlot (setting : Setting W O C T) (frame : Frame W O C T) (getter : String)
    (slot : Path) (type : TypeRef) : Prop :=
  ∃ child ∈ Piece.included setting frame, child.getter? = some getter
    ∧ slot = frame.path ++ [.key child.key] ∧ type = child.type

/-- The cursor of an item, or null where there is none. -/
def cursorOf (item : Option (Item O)) : Json :=
  match item with
  | some item => .string (Cursor.encode item.position)
  | none => .null

/-- A cursor is a string or null. -/
theorem cursorOf_isScalar (item : Option (Item O)) : (cursorOf item).IsScalar := by
  cases item <;> trivial

/-- The start cursor is that of the first item. -/
theorem pageInfo_startCursor (size : Nat) (items : List (Item O)) :
    ((Connection.pageInfo size items).lookup "startCursor").getD .null = cursorOf items.head? := by
  unfold Connection.pageInfo
  cases items.head? <;> rfl

/-- The end cursor is that of the last item. -/
theorem pageInfo_endCursor (size : Nat) (items : List (Item O)) :
    ((Connection.pageInfo size items).lookup "endCursor").getD .null
      = cursorOf items.getLast? := by
  unfold Connection.pageInfo
  cases items.getLast? <;> rfl

/-- An edge that was resolved shows its item. -/
structure ShowsEdge (setting : Setting W O C T) (past : List (Moment W O C T))
    (m : Moment W O C T) (edge : Frame W O C T) (item : Item O) : Prop where
  node : ∀ slot type, GetterSlot setting edge "node" slot type →
    Shows setting past m slot item.element.toFieldValue
  cursor : ∀ slot type, GetterSlot setting edge "cursor" slot type →
    m.state.data.at? slot = some (.string (Cursor.encode item.position))

/-- A page info that was resolved shows where a page begins and where it ends. -/
structure ShowsBounds (setting : Setting W O C T) (m : Moment W O C T) (info : Frame W O C T)
    (items : List (Item O)) : Prop where
  startCursor : ∀ slot type, GetterSlot setting info "startCursor" slot type →
    m.state.data.at? slot = some (cursorOf items.head?)
  endCursor : ∀ slot type, GetterSlot setting info "endCursor" slot type →
    m.state.data.at? slot = some (cursorOf items.getLast?)

/-- What there is in the slots of a connection whose page has the items. The edges and the page
info are objects, so they wait in their slots until they are resolved. -/
structure SharesPage (setting : Setting W O C T) (past : List (Moment W O C T))
    (m : Moment W O C T) (frame : Frame W O C T) (items : List (Item O)) : Prop where
  totalCount : ∀ slot type, GetterSlot setting frame "totalCount" slot type →
    m.state.data.at? slot = some (.ofNat items.length)
  lengths : ∀ getter, getter = "edges" ∨ getter = "nodes" → ∀ slot type,
    GetterSlot setting frame getter slot type → type.item?.isSome →
      ∃ values, m.state.data.at? slot = some (.array values) ∧ values.length = items.length
  nodes : ∀ slot type, GetterSlot setting frame "nodes" slot type → type.item?.isSome →
    ∀ i item, items[i]? = some item →
      Shows setting past m (slot ++ [.index i]) item.element.toFieldValue
  edges : ∀ slot type, GetterSlot setting frame "edges" slot type → type.item?.isSome →
    ∀ i item, items[i]? = some item → ∃ name,
      Shows setting past m (slot ++ [.index i]) (.object (.edge name item))
      ∧ ∀ edge, Resolved past edge → edge.path = slot ++ [.index i] →
        edge.source = .object (.edge name item) → ShowsEdge setting past m edge item
  pageInfo : ∀ slot type, GetterSlot setting frame "pageInfo" slot type → ∃ name size,
    Shows setting past m slot (.object (.json name (Connection.pageInfo size items)))
    ∧ ∀ info, Resolved past info → info.path = slot →
      info.source = .object (.json name (Connection.pageInfo size items)) →
        ShowsBounds setting m info items

section
variable {setting : Setting W O C T} {tree : SelectionTree (Definition W O C T)} {root : O}
  {world : W} {past : List (Moment W O C T)} {m last : Moment W O C T} {frame : Frame W O C T}
  {connection : Connection W O C} {items : List (Item O)} {slot : Path} {type : TypeRef}

/-- A field that a getter of an edge or of a page info answers shows its value. -/
theorem Reaches.shows_getter (hk : tree.root.KeysDistinct)
    (hr : Reaches setting (.start root tree world) past last) (hres : Resolved past frame)
    {object : Object O} (hs : frame.source = .object object) {getter : String}
    {value : FieldValue O C T} (hv : object.get? getter = some value)
    (hslot : GetterSlot setting frame getter slot type) : Shows setting past last slot value := by
  obtain ⟨m, hm, hres⟩ := hres
  obtain ⟨child, hc, hg, rfl, rfl⟩ := hslot
  obtain ⟨ht, definition, hd, hg'⟩ := Node.getter?_eq_some_iff.1 hg
  have hf : Piece.fails setting frame m.state.world = false := by
    rw [Bool.eq_false_iff]
    intro hf
    obtain ⟨connection, hc⟩ := Piece.connection_of_fails hf
    rw [hs] at hc
    cases hc
  obtain ⟨outcome, hy⟩ := exists_yields hres hf hc ht hd
  obtain rfl : outcome = .ok value := by
    obtain ⟨-, before, after, known, world, -, -, -, other, ho, rfl⟩ := hy
    obtain rfl := Option.some.inj (ho.symm.trans hd)
    simp only [resolveField, hs, Descriptor.resolve_of_getter? hg', Source.call_of_get? hv]
    rfl
  exact hr.shows_field hk hm hf hy

/-- An accessor of a connection that no field failed has its answer for the page. -/
theorem yields_accessor (hres : Resolves m frame) (hs : frame.source = .connection connection)
    (hf : Piece.fails setting frame m.state.world = false)
    (hp : Piece.settled setting frame (Piece.included setting frame) none m.state.world
      = some (.ok items)) {getter : String} {answer : List (Item O) → FieldValue O C T}
    (ha : connection.accessor? setting.host getter = some answer)
    (hslot : GetterSlot setting frame getter slot type) :
    ∃ child, slot = frame.path ++ [.key child.key] ∧ type = child.type
      ∧ Yields setting m frame child (.ok (answer items)) := by
  obtain ⟨child, hc, hg, rfl, rfl⟩ := hslot
  obtain ⟨ht, definition, hd, -⟩ := Node.getter?_eq_some_iff.1 hg
  obtain ⟨outcome, hy⟩ := exists_yields hres hf hc ht hd
  obtain ⟨page, hpage, rfl, -⟩ := hy.accessor hs hg ha
  rw [hp] at hpage
  cases hpage
  exact ⟨child, rfl, rfl, hy⟩

/-- A connection that no field failed shows its page at all later moments. -/
theorem Reaches.sharesPage (hk : tree.root.KeysDistinct)
    (hr : Reaches setting (.start root tree world) past last) (hm : m ∈ past)
    (hres : Resolves m frame) (hs : frame.source = .connection connection)
    (hf : Piece.fails setting frame m.state.world = false)
    (hp : Piece.settled setting frame (Piece.included setting frame) none m.state.world
      = some (.ok items)) : SharesPage setting past last frame items where
  totalCount slot type hslot := by
    obtain ⟨child, rfl, rfl, hy⟩ := yields_accessor hres hs hf hp rfl hslot
    exact (hr.shows_field hk hm hf hy).scalar _ rfl trivial
  lengths getter hgetter slot type hslot ht := by
    obtain ⟨answer, values, ha, hv, hlength⟩ :=
      connection.list_accessor setting.host hgetter items
    obtain ⟨child, rfl, rfl, hy⟩ := yields_accessor hres hs hf hp ha hslot
    rw [hv] at hy
    rw [← hlength]
    exact (hr.shows_items hk hm hf hy ht).1
  nodes slot type hslot ht i item hi := by
    obtain ⟨child, rfl, rfl, hy⟩ := yields_accessor hres hs hf hp rfl hslot
    simpa using (hr.shows_items hk hm hf hy ht).2 i _ (by simp [hi])
  edges slot type hslot ht i item hi := by
    obtain ⟨child, rfl, rfl, hy⟩ := yields_accessor hres hs hf hp rfl hslot
    have hedge : (items.map fun item => (.object (.edge (connection.edgeType.getD "") item) :
        FieldValue O C T))[i]? = some (.object (.edge (connection.edgeType.getD "") item)) := by
      rw [List.getElem?_map, hi]
      rfl
    have hshows := (hr.shows_items hk hm hf hy ht).2 i _ hedge
    rw [List.append_assoc]
    refine ⟨_, hshows, fun edge hresolved _ hsource => ⟨?_, ?_⟩⟩
    · intro slot type hslot
      exact hr.shows_getter hk hresolved hsource rfl hslot
    · intro slot type hslot
      exact (hr.shows_getter hk hresolved hsource rfl hslot).scalar _ rfl trivial
  pageInfo slot type hslot := by
    obtain ⟨child, rfl, rfl, hy⟩ := yields_accessor hres hs hf hp rfl hslot
    refine ⟨_, _, hr.shows_field hk hm hf hy, fun info hresolved _ hsource => ⟨?_, ?_⟩⟩
    · intro slot type hslot
      have hshows := hr.shows_getter hk hresolved hsource rfl hslot
      rw [pageInfo_startCursor] at hshows
      exact hshows.scalar _ rfl (cursorOf_isScalar _)
    · intro slot type hslot
      have hshows := hr.shows_getter hk hresolved hsource rfl hslot
      rw [pageInfo_endCursor] at hshows
      exact hshows.scalar _ rfl (cursorOf_isScalar _)

end

/-! ## All connections of an execution -/

/-- What is so at a moment of a connection whose fields were resolved: which operations were
applied, to what and in which order; that all accessors have their answers from what came of it;
and, unless the connection became null, that no accessor met an error, and what is in its slots. -/
structure SharedRun (setting : Setting W O C T) (past : List (Moment W O C T))
    (m : Moment W O C T) (run : PageRun W O C T) (connection : Connection W O C) : Prop where
  source : run.frame.source = .connection connection
  ran : connection.Ran setting.host run.calls run.page
  called : ∀ call ∈ run.calls, ∃ operation, connection.operations[call.index]? = some operation
    ∧ connection.arguments.lookup operation.argument = some call.value ∧ call.value ≠ .null
  ordered : (run.calls.map Call.index).Sublist (List.range connection.operations.length)
  chained : (∀ call ∈ run.calls.head?,
      call.items = Page.whole (connection.backing.elements setting.host))
    ∧ run.calls.IsChain fun first second => first.outcome = .ok second.items
  answers : ∃ earlier ∈ past, Resolves earlier run.frame ∧
    ∀ child outcome getter answer, Yields setting earlier run.frame child outcome →
      child.getter? = some getter → connection.accessor? setting.host getter = some answer →
        ∃ page, run.page = some page ∧ outcome = page.map answer
  succeeds : m.state.data.at? run.frame.path ≠ some .null → ∀ getter slot type answer,
    GetterSlot setting run.frame getter slot type →
      connection.accessor? setting.host getter = some answer →
        ∃ items, run.page = some (.ok items)
  shares : m.state.data.at? run.frame.path ≠ some .null → ∀ items, run.page = some (.ok items) →
    SharesPage setting past m run.frame items

section
variable {setting : Setting W O C T} {tree : SelectionTree (Definition W O C T)} {root : O}
  {world : W} {past : List (Moment W O C T)} {m : Moment W O C T}

/-- A connection that is not null was not failed by one of its fields. -/
theorem Reaches.fails_eq_false (hk : tree.root.KeysDistinct)
    (hr : Reaches setting (.start root tree world) past m) {frame : Frame W O C T}
    {earlier : Moment W O C T} (he : earlier ∈ past) (hres : Resolves earlier frame)
    (hnull : m.state.data.at? frame.path ≠ some .null) :
    Piece.fails setting frame earlier.state.world = false := by
  rw [Bool.eq_false_iff]
  intro hf
  obtain ⟨before, next, since, hbefore, hmove, hsince, -, -⟩ := hr.split he
  obtain ⟨_, _, _, _, hc⟩ := exists_collapse hres hf
  exact hnull (hbefore.staysNull hk hmove hc hsince).null

/-- At each moment of an execution a page run is that of one connection, shared by its fields. -/
theorem Reaches.sharedRun (hk : tree.root.KeysDistinct)
    (hr : Reaches setting (.start root tree world) past m) {runs : List (PageRun W O C T)}
    (hruns : PageRuns setting past runs) {run : PageRun W O C T} (hrun : run ∈ runs) :
    ∃ connection, SharedRun setting past m run connection := by
  obtain ⟨-, connection, hs⟩ := (hruns.resolved run.frame).1 ⟨run, hrun, rfl⟩
  have hran : connection.Ran setting.host run.calls run.page := by
    have hran := hruns.ran run hrun
    unfold Frame.Ran at hran
    rw [hs] at hran
    exact hran
  obtain ⟨earlier, he, hres, hpage⟩ := hruns.settled run hrun
  have hfails := hr.fails_eq_false hk he hres
  refine ⟨connection, hs, hran, hran.called, hran.ordered, hran.chained,
    ⟨earlier, he, hres, ?_⟩, ?_, ?_⟩
  · intro child outcome getter answer hy hg ha
    obtain ⟨page, hp, ho, -⟩ := hy.accessor hs hg ha
    exact ⟨page, hpage.trans hp, ho⟩
  · rintro hnull getter slot type answer ⟨child, hc, hg, -⟩ ha
    obtain ⟨ht, definition, hd, -⟩ := Node.getter?_eq_some_iff.1 hg
    obtain ⟨outcome, hy⟩ := exists_yields hres (hfails hnull) hc ht hd
    obtain ⟨page, hp, -, hok⟩ := hy.accessor hs hg ha
    obtain ⟨items, rfl⟩ := hok (hfails hnull)
    exact ⟨items, hpage.trans hp⟩
  · intro hnull items hitems
    exact hr.sharesPage hk he hres hs (hfails hnull) (hpage.symm.trans hitems)

end

/-- How the pages of all connections were made by a moment. If the operations note their
applications, these are the ones of the runs, and nothing else differs. -/
structure SharesPages (setting : Setting W O C T) (tree : SelectionTree (Definition W O C T))
    (root : O) (world : W) (past : List (Moment W O C T)) (m : Moment W O C T)
    (runs : List (PageRun W O C T)) : Prop where
  made : PageRuns setting past runs
  noted : ∃ past', Reaches setting.recorded (.start root tree.recorded (world, [])) past'
    (m.recorded (runs.flatMap PageRun.calls))
  ends : ∀ stop, Ends setting m stop →
    Ends setting.recorded (m.recorded (runs.flatMap PageRun.calls)) stop
  shared : ∀ run ∈ runs, ∃ connection, SharedRun setting past m run connection

/-- At every moment of an execution, and in its response, each connection whose fields were
resolved has one run of its operations at most, and shows what that run made. -/
theorem execute_sharesPages {setting : Setting W O C T}
    {tree : SelectionTree (Definition W O C T)} (hk : tree.root.KeysDistinct) {root : O}
    {world : W} :
    (∀ past m, Reaches setting (.start root tree world) past m →
      ∃ runs, SharesPages setting tree root world past m runs)
    ∧ ∀ fuel answer after, execute setting tree root fuel world = some (answer, after) →
      ∃ past last stop runs, Reaches setting (.start root tree world) past last
        ∧ Ends setting last stop ∧ answer.data = some last.state.data
        ∧ SharesPages setting tree root world past last runs := by
  have hmoment : ∀ past m, Reaches setting (.start root tree world) past m →
      ∃ runs, SharesPages setting tree root world past m runs := by
    intro past m hr
    obtain ⟨runs, hruns, hnoted⟩ := hr.recorded hk
    exact ⟨runs, hruns, hnoted, fun _ hends => hends.recorded _,
      fun run hrun => hr.sharedRun hk hruns hrun⟩
  refine ⟨hmoment, ?_⟩
  intro fuel answer after h
  obtain ⟨past, last, hr, hdata, stop, -, hends⟩ := execute_eq_some hk h
  obtain ⟨runs, hruns⟩ := hmoment past last hr
  exact ⟨past, last, stop, runs, hr, hends, hdata, hruns⟩

/-- A field that the getter of its name answers, with a sub-selection for one type or none. -/
def getterField (name : String) (type : TypeRef)
    (buckets : List (Bucket (Definition Unit Unit Unit Unit))) :
    Node (Definition Unit Unit Unit Unit) where
  key := name
  name := name
  owner := "Items"
  type := type
  isComposite := ! buckets.isEmpty
  occurrences := []
  definitions := [⟨.default "Items" name, .ofField ⟨name, type, []⟩⟩]
  buckets := buckets

/-- The fields of a connection. -/
def pagedFields : List (Node (Definition Unit Unit Unit Unit)) :=
  [getterField "totalCount" (.named "Int") [],
   getterField "edges" (.list (.named ""))
     [⟨"", [getterField "cursor" (.named "String") [], getterField "node" (.named "Int") []]⟩],
   getterField "nodes" (.list (.named "Int")) [],
   getterField "pageInfo" (.named "")
     [⟨"", [getterField "startCursor" (.named "String") [],
       getterField "endCursor" (.named "String") []]⟩]]

/-- A field with three items, of which it is given the leading two. -/
def pagedField : Node (Definition Unit Unit Unit Unit) where
  key := "items"
  name := "items"
  owner := "Query"
  type := .named "Items"
  isComposite := true
  occurrences := []
  definitions := [⟨.default "Query" "items",
    { strategy := .custom fun _ _ =>
        pure (.ok (.value (.array [.string "a", .string "b", .string "c"])))
      arguments := [("first", ⟨.named "Int", some (.ofNat 2)⟩)]
      connection := some [Slice.first.operation] }⟩]
  buckets := [⟨"Items", pagedFields⟩]

/-- The selection of that field. -/
def pagedTree : SelectionTree (Definition Unit Unit Unit Unit) :=
  ⟨.query, { Node.root "Query" with buckets := [⟨"Query", [pagedField]⟩] }⟩

/-- The connection. -/
def pagedFrame : Frame Unit Unit Unit Unit where
  path := [.key "items"]
  source := .connection ⟨"Items", none, none, .values [.string "a", .string "b", .string "c"],
    [Slice.first.operation], [("first", .ofNat 2)], none⟩
  concrete := "Items"
  node := pagedField

/-- What is selected of it. -/
def pagedData : Json :=
  .object [("items", .object
    [("totalCount", .ofNat 2),
     ("edges", .array
       [.object [("cursor", .string (Cursor.encode 0)), ("node", .string "a")],
        .object [("cursor", .string (Cursor.encode 1)), ("node", .string "b")]]),
     ("nodes", .array [.string "a", .string "b"]),
     ("pageInfo", .object
       [("startCursor", .string (Cursor.encode 0)), ("endCursor", .string (Cursor.encode 1))])])]

/-- A field with leaves below it has distinct keys below it, if each of its buckets has. -/
theorem getterField_keysDistinct {name : String} {type : TypeRef}
    {buckets : List (Bucket (Definition Unit Unit Unit Unit))}
    (h : ∀ bucket ∈ buckets, (bucket.nodes.map Node.key).Nodup
      ∧ ∀ child ∈ bucket.nodes, child.buckets = []) :
    (getterField name type buckets).KeysDistinct := by
  rw [Node.keysDistinct_iff]
  intro bucket hb
  obtain ⟨hnodup, hleaves⟩ := h bucket hb
  exact ⟨hnodup, fun child hc => Node.keysDistinct_of_leaf (hleaves child hc)⟩

/-- No two nodes of the paged tree share a key in one object. -/
theorem pagedTree_keysDistinct : pagedTree.root.KeysDistinct := by
  have hfields : ∀ child ∈ pagedFields, child.KeysDistinct := by
    simp only [pagedFields, List.forall_mem_cons]
    refine ⟨?_, ?_, ?_, ?_, nofun⟩
    all_goals
      refine getterField_keysDistinct ?_
      simp [getterField]
  have hpaged : pagedField.KeysDistinct :=
    Node.keysDistinct_of_bucket rfl (by decide) hfields
  exact Node.keysDistinct_of_bucket rfl (by decide) (by simpa using hpaged)

/-- Nothing is left to be done after five moves, of which the second resolves the connection. -/
theorem pagedTree_reaches : ∃ past last, Reaches emptySetting (.start () pagedTree ()) past last
    ∧ last.works = [] ∧ last.state.data = pagedData ∧ Resolved past pagedFrame := by
  have hroot : Reaches emptySetting (.start () pagedTree ()) _ _ := .move .start (.work rfl)
  have hpage := hroot.move (.work rfl)
  have hlast := ((hpage.move (.work rfl)).move (.work rfl)).move (.work rfl)
  refine ⟨_, _, hlast, rfl, rfl, Resolved.cons (Resolved.cons (Resolved.cons ?_))⟩
  exact resolved_cons.2 (.inl ⟨⟨_, rfl⟩, rfl⟩)

/-- The connection has one page of two items, which all its accessors show. -/
theorem execute_sharesPages_pagedTree :
    pagedTree.root.KeysDistinct
      ∧ (∃ answer, execute emptySetting pagedTree () 1 () = some (answer, ())
        ∧ answer.data = some pagedData)
      ∧ ∃ past last runs, Reaches emptySetting (.start () pagedTree ()) past last
        ∧ last.works = [] ∧ last.state.data = pagedData
        ∧ SharesPages emptySetting pagedTree () () past last runs
        ∧ ∃ run ∈ runs, run.frame = pagedFrame
          ∧ ∃ items, run.page = some (.ok items) ∧ items.length = 2 := by
  obtain ⟨past, last, hr, hworks, hdata, hresolved⟩ := pagedTree_reaches
  obtain ⟨runs, hruns⟩ := (execute_sharesPages pagedTree_keysDistinct).1 past last hr
  refine ⟨pagedTree_keysDistinct, ⟨_, rfl, rfl⟩, past, last, runs, hr, hworks, hdata, hruns, ?_⟩
  obtain ⟨run, hrun, hframe⟩ := (hruns.made.resolved pagedFrame).2 ⟨hresolved, _, rfl⟩
  obtain ⟨connection, hshared⟩ := hruns.shared run hrun
  have hnull : last.state.data.at? run.frame.path ≠ some .null := by
    rw [hdata, hframe]
    intro h
    cases h
  have hslot : GetterSlot emptySetting run.frame "totalCount" [.key "items", .key "totalCount"]
      (.named "Int") := by
    rw [hframe]
    exact ⟨_, List.mem_cons_self .., rfl, rfl, rfl⟩
  obtain ⟨items, hitems⟩ := hshared.succeeds hnull _ _ _ _ hslot rfl
  have hcount := (hshared.shares hnull items hitems).totalCount _ _ hslot
  rw [hdata] at hcount
  have hcount : Json.ofNat 2 = .ofNat items.length := Option.some.inj hcount
  simp only [Json.ofNat, Json.number.injEq, Number.int.injEq] at hcount
  exact ⟨run, hrun, hframe, items, hitems, by omega⟩

end QueryEngine.Execution
