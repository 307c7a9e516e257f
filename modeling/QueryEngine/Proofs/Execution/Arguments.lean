import QueryEngine.Proofs.Execution.Sound
import QueryEngine.Proofs.Execution.Variables
import QueryEngine.Proofs.Schema.Arguments
import QueryEngine.Proofs.Selection.Fields

/-!
# The arguments that fields are resolved with

To resolve a field of an object is to do what its descriptor does with some arguments
(`Receives`). In a request that keeps the rules, these are arguments that the field declares on the
type of the object. Each has the value of its literal, or else a default
(`execute_coercesArguments`). The default is declared where the descriptor was registered, so an
interface's default goes before that of the type if the descriptor is the interface's
(`execute_coercesArguments_not`).
-/

namespace QueryEngine

/-- The field is selected with arguments that its definition declares, each of them once. -/
structure Field.NamesArguments (schema : Schema) (field : Field) : Prop where
  distinct : (field.arguments.map Prod.fst).Nodup
  declared : ∀ definition, schema.field? field.owner field.name = some definition →
    field.arguments.map Prod.fst ⊆ definition.argumentNames

namespace Execution

variable {W O C T : Type}

/-- Does what a field of the object does. On a connection it may ask for the page. -/
def Frame.perform (setting : Setting W O C T) (frame : Frame W O C T)
    (action : Action W O (Outcome O C T)) (known : Option (Page O)) (world : W) :
    Outcome O C T × Option (Page O) × W :=
  match frame.source with
  | .connection connection => action.runWith (connection.paginate setting.host) known world
  | .object _ =>
    let (outcome, world) := action.run world
    (outcome, known, world)

/-- Goes on with the other fields when one has its outcome. A value is completed, an error leaves a
null in the slot, or in the place of the object if it fails the object. -/
def proceed (setting : Setting W O C T) (frame : Frame W O C T) (invocation : Invocation W O C T)
    (rest : List (Node (Definition W O C T))) (state : State W O C T)
    (answer : Outcome O C T × Option (Page O) × W) : State W O C T :=
  let path := frame.path ++ [.key invocation.node.key]
  let (outcome, known, world) := answer
  match outcome with
  | .ok value =>
    resolveFields setting frame rest known
      (complete setting invocation invocation.node.type path value { state with world })
  | .error error =>
    let (fails, known, world) := failsFrame setting frame error known world
    let state := { state with world }
    if fails then
      (state.write frame.path .null).report frame.path error FieldError.Code.fieldResolution
    else
      resolveFields setting frame rest known
        (state.report path error FieldError.Code.fieldResolution)

/-- Whatever fields come after it, and whenever it has its turn, the field of the object is resolved
by doing what its descriptor does when it is given the arguments of the invocation. -/
def Receives (setting : Setting W O C T) (frame : Frame W O C T)
    (invocation : Invocation W O C T) : Prop :=
  ∀ rest known state,
    resolveFields setting frame (invocation.node :: rest) known state
      = proceed setting frame invocation rest state
        (frame.perform setting
          (invocation.descriptor.resolve setting.host frame.source invocation.arguments) known
          state.world)

section
variable {setting : Setting W O C T} {frame : Frame W O C T}

/-- Resolving a field is performing what the call of its resolver answers. -/
theorem resolveField_eq_perform (descriptor : Descriptor W O C T) (arguments : Fields)
    (known : Option (Page O)) (world : W) :
    resolveField setting frame descriptor arguments known world
      = frame.perform setting (descriptor.resolve setting.host frame.source arguments) known
        world := by
  unfold resolveField Frame.perform
  cases frame.source <;> rfl

/-- The descriptor of a field is given its defaults, overlaid with the literals of the field. -/
theorem receives_coerceArguments {child : Node (Definition W O C T)} (hn : child.isTypename = false)
    {definition : Definition W O C T} (hd : child.definition? = some definition) :
    Receives setting frame ⟨child, definition.descriptor,
      definition.descriptor.coerceArguments child.arguments setting.vars⟩ := by
  intro rest known state
  rw [resolveFields, hn, hd, ← resolveField_eq_perform]
  simp only [Bool.false_eq_true, if_false]
  generalize resolveField setting frame definition.descriptor
    (definition.descriptor.coerceArguments child.arguments setting.vars) known state.world = answer
  obtain ⟨error | value, known', world'⟩ := answer <;> rfl

end

/-- The arguments that fields are resolved with, in a request that keeps the rules: the schema does,
no descriptor was registered with arguments of its own, and the selections of the document are made
on types that have the fields, with arguments that these declare. Then at every moment of an
execution, each field of an object that is part of the response and that the type of the object has
is resolved by its descriptor, which is given such arguments as the field declares there. An
argument has the value of its literal if the literal has a value, which may be null. If not, it has
the default that is declared for it where the descriptor was registered: by the type of the object,
if the descriptor was registered for the type or for none, and else by the first of its interfaces
for which one was. Without such a default it is left out. -/
theorem execute_coercesArguments {setting : Setting W O C T} {document : Document}
    {name : Option String} {tree : SelectionTree (Definition W O C T)}
    (hs : setting.registry.schema.WellFormed) (hi : setting.registry.ImportsArguments)
    (hd : document.Fits setting.registry.schema)
    (ha : document.AllFields (Field.NamesArguments setting.registry.schema))
    (ht : setting.registry.selectionTree document name = .ok tree) (root : O) (world : W) :
    ∀ past m, Reaches setting (.start root tree world) past m →
      ∀ frame, Resolves m frame → ∀ child ∈ Piece.included setting frame,
        child.isTypename = false →
        ∀ own, setting.registry.schema.field? frame.concrete child.name = some own →
          ∃ definition arguments source,
            setting.registry.definition? frame.concrete child.name = some definition
              ∧ Receives setting frame ⟨child, definition.descriptor, arguments⟩
              ∧ setting.registry.schema.field?
                (setting.registry.declarer frame.concrete child.name) child.name = some source
              ∧ (arguments.map Prod.fst).Nodup
              ∧ ∀ argument, arguments.lookup argument
                = if argument ∈ own.argumentNames then
                    ((child.arguments.lookup argument).bind (Literal.toJson? setting.vars)).or
                      (source.default? argument)
                  else none := by
  intro past m hr frame hf child hc hn own ho
  have hwithin : Node.Within tree.root frame.node := by
    obtain ⟨rest, hnext⟩ := hf.1
    exact (hr.sound (selectionTree_keysDistinct ht)).within _ (mem_works_next hnext)
  obtain ⟨children, hchildren, hchild⟩ : ∃ children,
      frame.node.children? frame.concrete = some children ∧ child ∈ children := by
    have hm := List.mem_of_mem_filter hc
    cases hchildren : frame.node.children? frame.concrete with
    | none => simp [hchildren] at hm
    | some children => exact ⟨children, rfl, by simpa [hchildren] using hm⟩
  obtain ⟨field, hnames, hselects⟩ := selectionTree_selects hs hd ha ht hwithin hchildren hchild
  obtain ⟨promised, hpromised⟩ := hselects.defined
  obtain ⟨definition, source, hdefinition, hsource, hnodup, hlookup⟩ :=
    hi.coerceArguments hs (hselects.name ▸ ho) hselects.satisfied hpromised hnames.distinct
      (hnames.declared promised hpromised) setting.vars
  rw [← hselects.name] at hdefinition hsource
  have hreceives : Receives setting frame _ :=
    receives_coerceArguments hn (hselects.definition definition hn hdefinition)
  rw [hselects.arguments] at hreceives ⊢
  exact ⟨definition, _, source, hdefinition, hreceives, hsource, hnodup, hlookup⟩

/-- A field of an interface. -/
def shopItems : FieldDef :=
  ⟨"items", .named "Int", [⟨"first", .named "Int", some (.int 10)⟩]⟩

/-- The field of a type with the interface: the argument has another default, and there is one
more. -/
def queryItems : FieldDef :=
  ⟨"items", .named "Int",
    [⟨"first", .named "Int", some (.int 5)⟩, ⟨"extra", .named "Int", some (.int 1)⟩]⟩

/-- The schema of the two types. -/
def shopSchema : Schema where
  types := Schema.builtIn ["Int"] ++
    [⟨"Shop", .interface [] [shopItems]⟩, ⟨"Query", .object ["Shop"] [queryItems]⟩]
  query := "Query"
  mutation := none
  subscription := none

/-- A descriptor without arguments, registered for the field of the interface. -/
def shopRegistry : Registry Unit Unit Unit Unit where
  schema := shopSchema
  registered := [(("Shop", "items"), ⟨.registered 0,
    { name := some "items", returnType := .bound (.named "Int"),
      arguments := [("first", ⟨.named "Int", some (.ofNat 10)⟩)] }⟩)]
  registrations := 1

/-- A host that answers with the arguments. -/
def shopSetting : Setting Unit Unit Unit Unit :=
  { echoSetting with registry := shopRegistry, vars := [] }

/-- A selection of the field without arguments. -/
def shopDocument : Document where
  operations := [⟨.query, none, [.field ⟨0, none, "items", [], [], "Query", .named "Int"⟩ []]⟩]
  fragments := []

/-- A type may have an argument with a default that its interface does not have. -/
theorem shopSchema_wellFormed : shopSchema.WellFormed :=
  ⟨["Int"], _, rfl, by decide +kernel⟩

/-- Registering a descriptor imports the arguments that the schema declares. -/
theorem shopRegistry_importsArguments : shopRegistry.ImportsArguments := by
  have empty : Registry.ImportsArguments (W := Unit) (O := Unit) (C := Unit) (T := Unit)
      { schema := shopSchema } := .empty rfl
  have done : Registry.register { schema := shopSchema } "Shop" "items" {} ()
      = (.ok shopRegistry, ()) := rfl
  exact empty.register rfl done

/-- The one field of the document is one that the schema declares. -/
theorem shopDocument_fits : shopDocument.Fits shopSchema := by
  refine ⟨List.forall_mem_singleton.2 ⟨"Query", rfl, ?_⟩, nofun⟩
  exact List.forall_mem_singleton.2 (.field rfl rfl rfl nofun)

/-- The document gives no argument, so each name it gives is declared once. -/
theorem shopDocument_namesArguments :
    shopDocument.AllFields (Field.NamesArguments shopSchema) := by
  refine ⟨List.forall_mem_singleton.2 ?_, nofun⟩
  exact List.forall_mem_singleton.2
    (.field ⟨List.nodup_nil, fun _ _ => List.nil_subset _⟩ nofun)

/-- The node of the selection. -/
def itemsNode : Node (Definition Unit Unit Unit Unit) where
  key := "items"
  name := "items"
  owner := "Query"
  type := .named "Int"
  isComposite := false
  occurrences := [⟨⟨0, none, "items", [], [], "Query", .named "Int"⟩, []⟩]
  definitions := (shopRegistry.definition? "Query" "items").toList
  buckets := []

/-- The tree of the document. -/
def shopTree : SelectionTree (Definition Unit Unit Unit Unit) :=
  ⟨.query, { Node.root "Query" with buckets := [⟨"Query", [itemsNode]⟩] }⟩

/-- The tree of the document has one node. -/
theorem shopTree_eq : shopRegistry.selectionTree shopDocument none = .ok shopTree := rfl

/-- The root object. -/
def shopFrame : Frame Unit Unit Unit Unit :=
  ⟨[], .object (.host ()), "Query", shopTree.root⟩

/-- The root object is what is resolved first. -/
theorem shopFrame_resolves : Resolves (.start () shopTree ()) shopFrame :=
  ⟨⟨_, rfl⟩, rfl⟩

/-- The node of the items is included in it. -/
theorem itemsNode_included : itemsNode ∈ Piece.included shopSetting shopFrame :=
  List.mem_singleton.2 rfl

/-- The descriptor that was registered for the interface resolves the field of the type. It is given
the interface's default, and the argument that only the type declares is left out. -/
theorem execute_coercesArguments_shopTree :
    shopSchema.WellFormed ∧ shopRegistry.ImportsArguments ∧ shopDocument.Fits shopSchema
      ∧ shopDocument.AllFields (Field.NamesArguments shopSchema)
      ∧ shopRegistry.selectionTree shopDocument none = .ok shopTree
      ∧ ∃ definition arguments, shopRegistry.definition? "Query" "items" = some definition
        ∧ definition.id = .registered 0
        ∧ Receives shopSetting shopFrame ⟨itemsNode, definition.descriptor, arguments⟩
        ∧ arguments.lookup "first" = some (.ofNat 10) ∧ arguments.lookup "extra" = none := by
  have coerced := @execute_coercesArguments _ _ _ _ shopSetting shopDocument none shopTree
    shopSchema_wellFormed shopRegistry_importsArguments shopDocument_fits
    shopDocument_namesArguments shopTree_eq () () [] _ .start shopFrame shopFrame_resolves itemsNode
    itemsNode_included rfl queryItems rfl
  obtain ⟨definition, arguments, source, found, receives, declares, -, lookup⟩ := coerced
  have registered : shopRegistry.definition? "Query" "items" = some _ := rfl
  have interface : shopSchema.field? (shopRegistry.declarer "Query" "items") "items"
      = some shopItems := rfl
  obtain rfl := Option.some.inj (registered.symm.trans found)
  obtain rfl := Option.some.inj (interface.symm.trans declares)
  exact ⟨shopSchema_wellFormed, shopRegistry_importsArguments, shopDocument_fits,
    shopDocument_namesArguments, shopTree_eq, _, arguments, found, rfl, receives, lookup "first",
    lookup "extra"⟩

/-- So the type's own defaults, five and one, do not reach the resolver of the field. -/
theorem execute_coercesArguments_not :
    shopRegistry.ImportsArguments ∧ shopDocument.Fits shopSchema
      ∧ shopDocument.AllFields (Field.NamesArguments shopSchema)
      ∧ shopSchema.field? "Query" "items" = some queryItems
      ∧ queryItems.default? "first" = some (.ofNat 5)
      ∧ queryItems.default? "extra" = some (.ofNat 1)
      ∧ (∃ definition, shopRegistry.definition? "Query" "items" = some definition
        ∧ itemsNode.arguments = []
        ∧ Receives shopSetting shopFrame
          ⟨itemsNode, definition.descriptor, [("first", .ofNat 10)]⟩)
      ∧ (executeRequest shopSetting shopDocument none () 1 ()).bind (fun answer => answer.1.data)
        = some (.object [("items", .object [("first", .ofNat 10)])]) := by
  have found : shopRegistry.definition? "Query" "items" = some _ := rfl
  exact ⟨shopRegistry_importsArguments, shopDocument_fits, shopDocument_namesArguments, rfl, rfl,
    rfl, ⟨_, found, rfl, receives_coerceArguments rfl found⟩, rfl⟩

end Execution

end QueryEngine
