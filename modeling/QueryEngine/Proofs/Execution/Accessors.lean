import QueryEngine.Proofs.Execution.Filled
import QueryEngine.Proofs.Execution.Recorded

/-!
# Accessors of connections

With the standard strategy a field is answered by a getter (`Descriptor.getter?`). The getters of a
connection that its page answers are its accessors: each of them asks for the page, which is known
from then on, and fails the connection if the page cannot be had (`fieldPart_accessor`). So all of
them have their answers from the one page that is known in the end (`Yields.accessor`).
-/

namespace QueryEngine

variable {W O C T : Type}

/-! ## Getters -/

namespace Descriptor

/-- The getter that answers the field, unless it indexes the object or has a resolver of its
own. -/
def getter? (descriptor : Descriptor W O C T) : Option String :=
  match descriptor.strategy with
  | .standard none method => method.or descriptor.name
  | .standard (some _) _ | .custom _ => none

/-- Importing arguments does not change which getter answers the field. -/
theorem getter?_importArguments (descriptor : Descriptor W O C T) (arguments : List ArgumentDef) :
    (descriptor.importArguments arguments).getter? = descriptor.getter? := by
  unfold importArguments
  induction arguments generalizing descriptor with
  | nil => rfl
  | cons argument rest ih =>
    rw [List.foldl_cons, ih]
    split <;> rfl

/-- A field for which no descriptor is registered is answered by the getter of its name. -/
theorem getter?_ofField (field : FieldDef) :
    (ofField field : Descriptor W O C T).getter? = some field.name := by
  rw [ofField, getter?_importArguments]
  rfl

/-- A descriptor with a getter resolves by calling it, and a source that has none says so. -/
theorem resolve_of_getter? {descriptor : Descriptor W O C T} {getter : String}
    (h : descriptor.getter? = some getter) (host : Host W O C T) (source : Source W O C)
    (arguments : Fields) :
    descriptor.resolve host source arguments = do
      return (← source.call host getter arguments).getD
        (.error (.unsupported (source.typeName host) getter)) := by
  unfold getter? at h
  unfold resolve
  split at h
  · rename_i method hs
    simp only [hs, h]
  · cases h
  · cases h

end Descriptor

namespace Node

/-- The getter that answers the field. -/
def getter? (node : Node (Definition W O C T)) : Option String :=
  if node.isTypename then none
  else node.definition?.bind fun definition => definition.descriptor.getter?

/-- A node has a getter exactly if it is not the name of the type and its definition has one. -/
theorem getter?_eq_some_iff {node : Node (Definition W O C T)} {getter : String} :
    node.getter? = some getter ↔ node.isTypename = false ∧ ∃ definition,
      node.definition? = some definition ∧ definition.descriptor.getter? = some getter := by
  unfold getter?
  split <;> simp_all [Option.bind_eq_some_iff]

end Node

/-- What a getter of an object that the engine made answers. -/
def Object.get? : Object O → String → Option (FieldValue O C T)
  | .host _, _ => none
  | .json _ fields, getter => some (.value ((fields.lookup getter).getD .null))
  | .edge _ item, getter => item.get? getter

/-- A getter that an object of the engine has is answered by the object alone. -/
theorem Source.call_of_get? {object : Object O} {getter : String} {value : FieldValue O C T}
    (h : object.get? getter = some value) (host : Host W O C T) (arguments : Fields) :
    (Source.object object).call host getter arguments = pure (some (.ok value)) := by
  cases object with
  | host handle => cases h
  | json type fields =>
    cases h
    rfl
  | edge type item =>
    have h : item.get? getter = some value := h
    simp [Source.call, h]

/-! ## Accessors -/

namespace Connection

/-- What a getter of a connection makes of the page, if it is one that the page answers. -/
def accessor? (host : Host W O C T) (connection : Connection W O C) (getter : String) :
    Option (List (Item O) → FieldValue O C T) :=
  if getter == "edges" then some connection.edges
  else if getter == "nodes" then some nodes
  else if getter == "totalCount" then some fun items => .value (.ofNat items.length)
  else if getter == "pageInfo" then
    some fun items =>
      .object (.json (connection.pageInfoType.getD "")
        (pageInfo (connection.backing.length host) items))
  else none

/-- The edges and the nodes are lists as long as the page. -/
theorem list_accessor (host : Host W O C T) (connection : Connection W O C) {getter : String}
    (h : getter = "edges" ∨ getter = "nodes") (items : List (Item O)) :
    ∃ answer values, connection.accessor? host getter = some answer
      ∧ answer items = .list values ∧ values.length = items.length := by
  rcases h with rfl | rfl
  · exact ⟨_, _, rfl, rfl, List.length_map _⟩
  · exact ⟨_, _, rfl, rfl, List.length_map _⟩

/-- An accessor asks for the page and answers from it. -/
theorem call_of_accessor? {host : Host W O C T} {connection : Connection W O C} {getter : String}
    {answer : List (Item O) → FieldValue O C T}
    (h : connection.accessor? host getter = some answer) (arguments : Fields) :
    connection.call host getter arguments = do return some ((← Action.page).map answer) := by
  unfold accessor? at h
  unfold call
  split at h
  · cases h
    simp_all
  · split at h
    · cases h
      simp_all
    · split at h
      · cases h
        simp_all
      · split at h
        · cases h
          simp_all
        · cases h

end Connection

/-- A page that is known stays known through a step. -/
theorem Step.runWith_some {α : Type} (compute : W → Page O × W) (page : Page O)
    (step : Step W O α) : (step.runWith compute (some page)).2.1 = some page := by
  induction step with
  | done result world => rfl
  | page world next ih => exact ih page world

namespace Execution

open Moment

/-! ## One page for all fields -/

section
variable {setting : Setting W O C T} {frame : Frame W O C T} {connection : Connection W O C}
  {child : Node (Definition W O C T)} {known known' : Option (Page O)} {world world' : W}

/-- A page that is known stays known when a field is resolved. -/
theorem resolveField_known (setting : Setting W O C T) (frame : Frame W O C T)
    (descriptor : Descriptor W O C T) (arguments : Fields) (page : Page O) (world : W) :
    (resolveField setting frame descriptor arguments (some page) world).2.1 = some page := by
  unfold resolveField
  cases frame.source with
  | object object => rfl
  | connection connection => exact Step.runWith_some ..

/-- A page that is known stays known when an error is looked at. -/
theorem failsFrame_known (setting : Setting W O C T) (frame : Frame W O C T) (error : FieldError)
    (page : Page O) (world : W) :
    (failsFrame setting frame error (some page) world).2.1 = some page := by
  unfold failsFrame
  cases frame.source with
  | object object => rfl
  | connection connection =>
    simp only
    split
    · rfl
    · exact Step.runWith_some ..

/-- A page that is known stays known, whatever field is resolved. -/
theorem fieldPart_known (setting : Setting W O C T) (frame : Frame W O C T)
    (child : Node (Definition W O C T)) (page : Page O) (world : W) :
    (Piece.fieldPart setting frame child (some page) world).2.1 = some page := by
  simp only [Piece.fieldPart]
  split
  · rfl
  · split
    · rfl
    · rename_i definition _
      have hknown := resolveField_known setting frame definition.descriptor
        (definition.descriptor.coerceArguments child.arguments setting.vars) page world
      generalize resolveField setting frame definition.descriptor
        (definition.descriptor.coerceArguments child.arguments setting.vars) (some page) world
          = answer at hknown ⊢
      obtain ⟨error | value, known, after⟩ := answer
      · obtain rfl : known = some page := hknown
        have hknown' := failsFrame_known setting frame error page after
        simp only
        generalize failsFrame setting frame error (some page) after = failure at hknown' ⊢
        obtain ⟨_ | _, known', last⟩ := failure
        · exact hknown'
        · exact hknown'
      · exact hknown

/-- A page that is known at the start is the one that is known at the end. -/
theorem settled_known (page : Page O) (children : List (Node (Definition W O C T))) (world : W) :
    Piece.settled setting frame children (some page) world = some page := by
  induction children generalizing world with
  | nil => rfl
  | cons first rest ih =>
    have hknown := fieldPart_known setting frame first page world
    simp only [Piece.settled]
    rcases hf : Piece.fieldPart setting frame first (some page) world
      with ⟨error | piece, known, after⟩
    · simpa only [hf] using hknown
    · rw [hf] at hknown
      obtain rfl : known = some page := hknown
      exact ih after

/-- The page that is known at the end is that known after fields none of which fails the object,
or what becomes of it from there. -/
theorem settled_append {before : List (Node (Definition W O C T))}
    (hp : Piece.passed setting frame before known world = some (known', world'))
    (rest : List (Node (Definition W O C T))) :
    Piece.settled setting frame (before ++ rest) known world
      = Piece.settled setting frame rest known' world' := by
  induction before generalizing known world with
  | nil =>
    cases hp
    rfl
  | cons first before ih =>
    simp only [Piece.passed] at hp
    simp only [List.cons_append, Piece.settled]
    rcases hf : Piece.fieldPart setting frame first known world with ⟨_ | made, known'', world''⟩
    · simp [hf] at hp
    · rw [hf] at hp
      exact ih hp

/-- An accessor answers from the page, which is known from then on. -/
theorem resolveField_accessor (setting : Setting W O C T)
    (hs : frame.source = .connection connection) {descriptor : Descriptor W O C T} {getter : String}
    (hg : descriptor.getter? = some getter) {answer : List (Item O) → FieldValue O C T}
    (ha : connection.accessor? setting.host getter = some answer) (arguments : Fields)
    (known : Option (Page O)) (world : W) :
    ∃ page after, resolveField setting frame descriptor arguments known world
      = (page.map answer, some page, after) := by
  have hresolve := Descriptor.resolve_of_getter? hg setting.host (.connection connection) arguments
  have hcall : (Source.connection connection).call setting.host getter arguments = _ :=
    Connection.call_of_accessor? ha arguments
  simp only [resolveField, hs, hresolve, hcall]
  cases known with
  | none => exact ⟨_, _, rfl⟩
  | some page => exact ⟨page, world, rfl⟩

/-- An error on a connection whose page cannot be had fails it. -/
theorem failsFrame_of_error (hs : frame.source = .connection connection)
    (error cause : FieldError) (world : W) :
    failsFrame setting frame error (some (.error cause)) world
      = (true, some (.error cause), world) := by
  simp only [failsFrame, hs]
  split <;> rfl

/-- If the page is an error, an accessor fails the connection. -/
theorem fieldPart_accessor (setting : Setting W O C T)
    (hs : frame.source = .connection connection) {getter : String}
    (hg : child.getter? = some getter) {answer : List (Item O) → FieldValue O C T}
    (ha : connection.accessor? setting.host getter = some answer)
    (known : Option (Page O)) (world : W) :
    ∃ page, (Piece.fieldPart setting frame child known world).2.1 = some page
      ∧ (∀ error, page = .error error →
        (Piece.fieldPart setting frame child known world).1 = .error error)
      ∧ ∀ definition, child.definition? = some definition →
        (resolveField setting frame definition.descriptor
          (definition.descriptor.coerceArguments child.arguments setting.vars) known world).1
            = page.map answer := by
  obtain ⟨ht, definition, hd, hg⟩ := Node.getter?_eq_some_iff.1 hg
  obtain ⟨page, after, he⟩ := resolveField_accessor setting hs hg ha
    (definition.descriptor.coerceArguments child.arguments setting.vars) known world
  have hsame : ∀ other, child.definition? = some other → other = definition := by
    intro other ho
    exact Option.some.inj (ho.symm.trans hd)
  refine ⟨page, ?_, ?_, fun other ho => by rw [hsame other ho, he]⟩
  · simp only [Piece.fieldPart, ht, hd, he]
    cases page with
    | error error => simp [Except.map, failsFrame_of_error hs]
    | ok items => rfl
  · rintro error rfl
    simp [Piece.fieldPart, ht, hd, he, Except.map, failsFrame_of_error hs]

/-- Every accessor that is resolved answers from the page that is known in the end. If that is an
error, the connection fails. -/
theorem Yields.accessor {m : Moment W O C T} {outcome : Outcome O C T}
    (hy : Yields setting m frame child outcome) (hs : frame.source = .connection connection)
    {getter : String} (hg : child.getter? = some getter)
    {answer : List (Item O) → FieldValue O C T}
    (ha : connection.accessor? setting.host getter = some answer) :
    ∃ page, Piece.settled setting frame (Piece.included setting frame) none m.state.world
        = some page
      ∧ outcome = page.map answer
      ∧ (Piece.fails setting frame m.state.world = false → ∃ items, page = .ok items) := by
  obtain ⟨-, before, after, known, world, hi, hp, ht, definition, hd, rfl⟩ := hy
  obtain ⟨page, hknown, herror, houtcome⟩ :=
    fieldPart_accessor setting hs hg ha known world
  refine ⟨page, ?_, houtcome definition hd, ?_⟩
  · rw [hi, settled_append hp]
    simp only [Piece.settled]
    generalize Piece.fieldPart setting frame child known world = part at hknown ⊢
    obtain ⟨error | piece, known', world'⟩ := part
    · exact hknown
    · obtain rfl : known' = some page := hknown
      exact settled_known ..
  · intro hf
    cases page with
    | ok items => exact ⟨items, rfl⟩
    | error error =>
      have hfailure := Piece.failure_fieldParts hp (herror error rfl) after
      rw [← hi] at hfailure
      simp [Piece.fails, hfailure] at hf

end

end Execution

end QueryEngine
