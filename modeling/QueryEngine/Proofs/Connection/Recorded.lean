import Mathlib.Data.List.Chain
import QueryEngine.Connection.State

/-!
# Recorded operations

`Connection.recorded` is a connection whose operations note each of their applications in the
world; apart from that they do what they did. Its page is the page of the connection itself, and
computing it notes a `Pipeline`: the operations whose argument is there and not null, each at most
once, in the order of declaration, each applied to what the one before it made, up to the first
that fails (`Connection.paginate_recorded`).
-/

namespace QueryEngine

variable {W O C T α : Type}

/-- An application of an operation of a connection: its place in the declaration, the value of its
argument, what it was applied to and what came of it. -/
structure Call (O : Type) where
  index : Nat
  value : Json
  items : List (Item O)
  outcome : Page O

/-- A world in which applications are noted. -/
abbrev Recorded (W O : Type) := W × List (Call O)

/-- A change of the world that notes nothing. -/
def Recorded.lift (change : W → α × W) (world : Recorded W O) : α × Recorded W O :=
  ((change world.1).1, (change world.1).2, world.2)

namespace PageOperation

/-- The operation at a place of a declaration, which notes its applications. -/
def recorded (operation : PageOperation W O) (index : Nat) : PageOperation (Recorded W O) O where
  argument := operation.argument
  run items value world :=
    let (outcome, after) := operation.run items value world.1
    (outcome, after, world.2 ++ [⟨index, value, items, outcome⟩])

/-- A recorded operation has the argument of the operation. -/
theorem argument_recorded (operation : PageOperation W O) (index : Nat) :
    (operation.recorded index).argument = operation.argument := rfl

/-- A recorded operation does what the operation does, and notes the call. -/
theorem run_recorded (operation : PageOperation W O) (index : Nat) (items : List (Item O))
    (value : Json) (world : W) (noted : List (Call O)) :
    (operation.recorded index).run items value (world, noted)
      = ((operation.run items value world).1, (operation.run items value world).2,
        noted ++ [⟨index, value, items, (operation.run items value world).1⟩]) := rfl

/-- The operation without its notes. -/
def forget (operation : PageOperation (Recorded W O) O) : PageOperation W O where
  argument := operation.argument
  run items value world :=
    let (outcome, after) := operation.run items value (world, [])
    (outcome, after.1)

/-- To forget that an operation is recorded gives back the operation. -/
theorem forget_recorded (operation : PageOperation W O) (index : Nat) :
    (operation.recorded index).forget = operation := rfl

/-- The operations of a declaration, which note their applications. -/
def recordedAll (operations : List (PageOperation W O)) :
    List (PageOperation (Recorded W O) O) :=
  operations.zipIdx.map fun declared => declared.1.recorded declared.2

/-- To forget that operations are recorded gives back all of them. -/
theorem map_forget_recordedAll (operations : List (PageOperation W O)) :
    (recordedAll operations).map forget = operations := by
  rw [recordedAll, List.map_map]
  exact List.zipIdx_map_fst 0 operations

end PageOperation

/-! ## What is noted -/

/-- The applications of declared operations, beginning with some items: of each operation whose
argument is there and not null, in order and up to the first that fails. -/
inductive Pipeline (arguments : Fields) :
    List (PageOperation W O × Nat) → List (Item O) → List (Call O) → Page O → Prop
  | done (items : List (Item O)) : Pipeline arguments [] items [] (.ok items)
  | skip {operation : PageOperation W O} {index : Nat} {rest : List (PageOperation W O × Nat)}
    {items : List (Item O)} {calls : List (Call O)} {page : Page O}
    (h : arguments.lookup operation.argument = none
      ∨ arguments.lookup operation.argument = some .null) :
    Pipeline arguments rest items calls page →
      Pipeline arguments ((operation, index) :: rest) items calls page
  | pass {operation : PageOperation W O} {index : Nat} {rest : List (PageOperation W O × Nat)}
    {items made : List (Item O)} {value : Json} {world : W} {calls : List (Call O)}
    {page : Page O} (h : arguments.lookup operation.argument = some value) (hn : value ≠ .null)
    (hrun : (operation.run items value world).1 = .ok made) :
    Pipeline arguments rest made calls page →
      Pipeline arguments ((operation, index) :: rest) items
        (⟨index, value, items, .ok made⟩ :: calls) page
  | fail {operation : PageOperation W O} {index : Nat} {rest : List (PageOperation W O × Nat)}
    {items : List (Item O)} {value : Json} {world : W} {error : FieldError}
    (h : arguments.lookup operation.argument = some value) (hn : value ≠ .null)
    (hrun : (operation.run items value world).1 = .error error) :
    Pipeline arguments ((operation, index) :: rest) items
      [⟨index, value, items, .error error⟩] (.error error)

section
variable {arguments : Fields} {declared : List (PageOperation W O × Nat)} {items : List (Item O)}
  {calls : List (Call O)} {page : Page O}

/-- What is applied is a declared operation whose argument is there and not null. -/
theorem Pipeline.called (h : Pipeline arguments declared items calls page) :
    ∀ call ∈ calls, ∃ operation, (operation, call.index) ∈ declared
      ∧ arguments.lookup operation.argument = some call.value ∧ call.value ≠ .null := by
  induction h with
  | done => simp
  | skip _ _ ih =>
    intro call hc
    obtain ⟨operation, hm, harg⟩ := ih call hc
    exact ⟨operation, List.mem_cons_of_mem _ hm, harg⟩
  | pass h hn _ _ ih =>
    intro call hc
    rcases List.mem_cons.1 hc with rfl | hc
    · exact ⟨_, List.mem_cons_self .., h, hn⟩
    · obtain ⟨operation, hm, harg⟩ := ih call hc
      exact ⟨operation, List.mem_cons_of_mem _ hm, harg⟩
  | fail h hn =>
    intro call hc
    rw [List.mem_singleton.1 hc]
    exact ⟨_, List.mem_cons_self .., h, hn⟩

/-- No operation is applied twice, and the order is that of the declaration. -/
theorem Pipeline.ordered (h : Pipeline arguments declared items calls page) :
    (calls.map Call.index).Sublist (declared.map Prod.snd) := by
  induction h with
  | done => exact .slnil
  | skip _ _ ih => exact ih.cons _
  | pass _ _ _ _ ih => exact ih.cons_cons _
  | fail => exact (List.nil_sublist _).cons_cons _

/-- Each operation is applied to what the one before it made, the first one to the items. -/
theorem Pipeline.chained (h : Pipeline arguments declared items calls page) :
    (∀ call ∈ calls.head?, call.items = items)
      ∧ calls.IsChain fun first second => first.outcome = .ok second.items := by
  induction h with
  | done => simp
  | skip _ _ ih => exact ih
  | pass _ _ _ _ ih =>
    refine ⟨by simp, List.isChain_cons.2 ⟨?_, ih.2⟩⟩
    intro second hs
    rw [ih.1 second hs]
  | fail => simp

end

/-- Applying recorded operations makes the same page and notes a pipeline. -/
theorem Page.applyAll_recorded (arguments : Fields) (operations : List (PageOperation W O))
    (start : Nat) (items : List (Item O)) (world : W) (noted : List (Call O)) :
    ∃ calls,
      applyAll arguments
          ((operations.zipIdx start).map fun declared => declared.1.recorded declared.2) items
          (world, noted)
        = ((applyAll arguments operations items world).1,
          (applyAll arguments operations items world).2, noted ++ calls)
      ∧ Pipeline arguments (operations.zipIdx start) items calls
        (applyAll arguments operations items world).1 := by
  induction operations generalizing start items world noted with
  | nil => exact ⟨[], by simp [applyAll], .done items⟩
  | cons operation rest ih =>
    simp only [List.zipIdx_cons, List.map_cons, applyAll, PageOperation.argument_recorded,
      PageOperation.run_recorded]
    have hskip : (arguments.lookup operation.argument = none
        ∨ arguments.lookup operation.argument = some .null) →
        ∃ calls,
          applyAll arguments
              ((rest.zipIdx (start + 1)).map fun declared => declared.1.recorded declared.2) items
              (world, noted)
            = ((applyAll arguments rest items world).1,
              (applyAll arguments rest items world).2, noted ++ calls)
          ∧ Pipeline arguments ((operation, start) :: rest.zipIdx (start + 1)) items calls
            (applyAll arguments rest items world).1 := by
      intro habsent
      obtain ⟨calls, he, hp⟩ := ih (start + 1) items world noted
      exact ⟨calls, he, .skip habsent hp⟩
    split
    · rename_i h
      exact hskip (.inl h)
    · rename_i h
      exact hskip (.inr h)
    · rename_i value hn h
      have hvalue : value ≠ .null := fun e => hn (e ▸ rfl)
      rcases hrun : operation.run items value world with ⟨error | made, after⟩
      · exact ⟨_, rfl, .fail h hvalue (by rw [hrun])⟩
      · obtain ⟨calls, he, hp⟩ := ih (start + 1) made after
          (noted ++ [⟨start, value, items, .ok made⟩])
        refine ⟨_, ?_, .pass h hvalue (by rw [hrun]) hp⟩
        rw [List.append_assoc] at he
        exact he

/-! ## Connections and hosts -/

/-- The host in worlds where applications are noted. -/
def Host.recorded (host : Host W O C T) : Host (Recorded W O) O C T where
  typeName := host.typeName
  lookup object key := Recorded.lift (host.lookup object key)
  call object method arguments := Recorded.lift (host.call object method arguments)
  length := host.length
  element? := host.element?
  elements := host.elements
  capability collection method arguments :=
    Recorded.lift (host.capability collection method arguments)
  poll task := Recorded.lift (host.poll task)
  cancelled world := host.cancelled world.1

namespace Connection

/-- The connection whose operations note their applications. -/
def recorded (connection : Connection W O C) : Connection (Recorded W O) O C where
  type := connection.type
  edgeType := connection.edgeType
  pageInfoType := connection.pageInfoType
  backing := connection.backing
  operations := PageOperation.recordedAll connection.operations
  arguments := connection.arguments
  maxPageSize := connection.maxPageSize

/-- The connection without the notes of its operations. -/
def forget (connection : Connection (Recorded W O) O C) : Connection W O C where
  type := connection.type
  edgeType := connection.edgeType
  pageInfoType := connection.pageInfoType
  backing := connection.backing
  operations := connection.operations.map PageOperation.forget
  arguments := connection.arguments
  maxPageSize := connection.maxPageSize

/-- To forget that a connection is recorded gives back the connection. -/
theorem forget_recorded (connection : Connection W O C) :
    connection.recorded.forget = connection := by
  cases connection
  simp [recorded, forget, PageOperation.map_forget_recordedAll]

/-- Computing the page notes a pipeline. -/
theorem paginate_recorded (host : Host W O C T) (connection : Connection W O C) (world : W)
    (noted : List (Call O)) :
    ∃ calls result,
      connection.recorded.paginate host.recorded (world, noted)
        = ((connection.paginate host world).1, (connection.paginate host world).2, noted ++ calls)
      ∧ Pipeline connection.arguments connection.operations.zipIdx
        (Page.whole (connection.backing.elements host)) calls result
      ∧ (connection.paginate host world).1 = result.map (Page.cap connection.maxPageSize) := by
  obtain ⟨calls, he, hp⟩ := Page.applyAll_recorded connection.arguments connection.operations 0
    (Page.whole (connection.backing.elements host)) world noted
  have helements : connection.recorded.backing.elements host.recorded
      = connection.backing.elements host := by
    show connection.backing.elements host.recorded = _
    cases connection.backing <;> rfl
  refine ⟨calls, _, ?_, hp, rfl⟩
  simp only [paginate, Page.paginate, helements]
  exact congrArg (fun answer : Page O × Recorded W O =>
    (answer.1.map (Page.cap connection.maxPageSize), answer.2)) he

end Connection

namespace Source

/-- The object, with the operations noting their applications if it is a connection. -/
def recorded : Source W O C → Source (Recorded W O) O C
  | .object o => .object o
  | .connection c => .connection c.recorded

/-- The object without the notes of operations. -/
def forget : Source (Recorded W O) O C → Source W O C
  | .object o => .object o
  | .connection c => .connection c.forget

/-- To forget that a source is recorded gives back the source. -/
theorem forget_recorded (source : Source W O C) : source.recorded.forget = source := by
  cases source with
  | object o => rfl
  | connection c => exact congrArg Source.connection c.forget_recorded

end Source

end QueryEngine
