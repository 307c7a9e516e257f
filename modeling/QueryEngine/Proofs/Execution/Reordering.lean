import QueryEngine.Proofs.Execution.Accessors
import QueryEngine.Proofs.Execution.Refinement
import QueryEngine.Proofs.Execution.Reordered
import QueryEngine.Proofs.Selection.Collect
import QueryEngine.Proofs.Selection.Doubling

/-!
# The order of selections is the order of keys

Without side effects, cancellation or limit, a document and one with its selections in another order
are refused alike or have responses that differ in the order of keys and of errors only
(`executeRequest_shuffles`). This is the case where field selections that are merged have the same
arguments in the same order, which resolvers see, where it does not matter which of their named
types a field has (`Firm`), and for the errors that lead to slots of the data: what is found below
a connection before another field makes it null depends on the order
(`executeRequest_shuffles_not`).
-/

namespace QueryEngine

variable {W O C T : Type}

/-! ## Responses in another order -/

namespace Response

/-- The paths of the errors that lead to slots of the data; of all errors if there is no data. -/
def slotPaths (response : Response) : List (Option Path) :=
  (response.errors.filter fun error =>
    response.data.all fun data => Execution.leadsTo data error).map ResponseError.path

/-- The responses have the same data up to the order of keys, and their errors lead to the same
slots. -/
structure Permutes (response other : Response) : Prop where
  data : Option.Rel Json.Permuted response.data other.data
  errors : response.slotPaths.Perm other.slotPaths

/-- A response without data is the same in any order. -/
theorem permutes_self {response : Response} (h : response.data = none) :
    response.Permutes response := by
  refine ⟨?_, .refl _⟩
  rw [h]
  exact .none

end Response

/-! ## Registries without side effects -/

/-- A definition of a field is one that was registered, or the default one of the field. -/
theorem Registry.mem_registered_or_eq_ofField {registry : Registry W O C T} {type name : String}
    {definition : Definition W O C T} (h : registry.definition? type name = some definition) :
    (∃ entry ∈ registry.registered, entry.2 = definition)
      ∨ ∃ field, definition.descriptor = .ofField field := by
  unfold definition? at h
  dsimp only at h
  split at h
  · next found hf =>
    cases h
    obtain ⟨owner, -, hlookup⟩ := List.exists_of_findSome?_eq_some hf
    obtain ⟨before, after, heq, -⟩ := List.lookup_eq_some_iff.1 hlookup
    exact .inl ⟨((owner, name), definition), by simp [heq], rfl⟩
  · split at h
    · next field _ =>
      cases h
      exact .inr ⟨field, rfl⟩
    · cases h

/-- The default descriptor of a field has its name, its type and its arguments, and nothing else. -/
theorem Descriptor.exists_ofField_eq (field : FieldDef) : ∃ declared,
    (ofField field : Descriptor W O C T)
      = { name := some field.name, returnType := .bound field.type, arguments := declared } := by
  have himport : ∀ (arguments : List ArgumentDef) (descriptor : Descriptor W O C T),
      ∃ declared, descriptor.importArguments arguments
        = { descriptor with arguments := declared } := by
    intro arguments
    induction arguments with
    | nil => exact fun descriptor => ⟨descriptor.arguments, rfl⟩
    | cons argument rest ih =>
      intro descriptor
      rw [importArguments, List.foldl_cons]
      split
      · exact ih descriptor
      · exact ih (descriptor.declareArgument _ _)
  exact himport field.arguments _

namespace Execution

/-- Nothing that an execution of a request may ask for changes the world. -/
structure Setting.Keeps (world : W) (setting : Setting W O C T) : Prop where
  host : setting.host.Keeps world
  registered : ∀ entry ∈ setting.registry.registered, entry.2.descriptor.Keeps world
  deferred : ∀ type resolver, setting.registry.deferred.lookup type = some (some resolver) →
    ∀ marker arguments, (resolver marker arguments world).2 = world

section
variable {setting : Setting W O C T} {world : W}

/-- The default descriptor of a field changes nothing, and none that is registered does. -/
theorem Setting.Keeps.descriptor (h : setting.Keeps world) {type name : String}
    {definition : Definition W O C T}
    (hd : setting.registry.definition? type name = some definition) :
    definition.descriptor.Keeps world := by
  obtain ⟨entry, he, rfl⟩ | ⟨field, hfield⟩ := Registry.mem_registered_or_eq_ofField hd
  · exact h.registered entry he
  · obtain ⟨declared, hdeclared⟩ := Descriptor.exists_ofField_eq (W := W) (O := O) (C := C) (T := T)
      field
    rw [hfield, hdeclared]
    exact ⟨nofun, nofun, nofun⟩

/-- The tree of a request has no side effects if the setting has none. -/
theorem Setting.Keeps.sideEffectFree (h : setting.Keeps world)
    (hs : setting.registry.schema.WellFormed) {document : Document} {name : Option String}
    {tree : SelectionTree (Definition W O C T)}
    (ht : setting.registry.selectionTree document name = .ok tree) :
    SideEffectFree setting tree.root world where
  host := h.host
  descriptors node hw definition hd := by
    obtain ⟨type, field, hdefinition⟩ := setting.registry.exists_definition? hs ht hw hd
    exact h.descriptor hdefinition
  deferred := h.deferred

/-! ## Executions in another order -/

variable {tree tree' : SelectionTree (Definition W O C T)} {root : O}

/-- The root object has the same answer. -/
theorem interpret_shuffles (howner : tree.root.owner = tree'.root.owner)
    (hn : tree.root.Shuffles tree'.root)
    (hf : Firm setting world ⟨[], .object (.host root), tree.root.owner, tree.root⟩)
    (depth : Nat) :
    Option.Rel Answer.Permutes (interpret setting world tree root depth)
      (interpret setting world tree' root depth) := by
  unfold interpret
  rw [← howner]
  exact answer_shuffles depth (.object hn hf)

/-- Responses have another order if they have the data of answers that do, and those errors of the
answers that lead to slots. -/
theorem permutes_of_answers {response response' : Response} {a a' : Answer}
    (h : a.Permutes a') (hd : response.data = some a.value) (hd' : response'.data = some a'.value)
    (he : (response.errors.filter (leadsTo a.value)).Perm (a.errors.filter (leadsTo a.value)))
    (he' : (response'.errors.filter (leadsTo a'.value)).Perm
      (a'.errors.filter (leadsTo a'.value))) : response.Permutes response' := by
  have hslots : ∀ data (errors : List ResponseError),
      (errors.filter (leadsTo data)).map ResponseError.path
        = (errors.map ResponseError.path).filter fun path =>
          path.any fun path => (data.at? path).isSome :=
    fun data errors => List.filter_map.symm
  have hsame : ∀ path, (a.value.at? path).isSome = (a'.value.at? path).isSome :=
    h.value.isSome_at?
  refine ⟨?_, ?_⟩
  · rw [hd, hd']
    exact .some h.value
  · simp only [Response.slotPaths, hd, hd', Option.all_some]
    refine (he.map _).trans (.trans ?_ (he'.map _).symm)
    rw [hslots, hslots]
    simp only [hsame]
    exact h.paths.filter _

section
variable (h : SideEffectFree setting tree.root world)
  (h' : SideEffectFree setting tree'.root world) (hk : tree.root.KeysDistinct)
  (hk' : tree'.root.KeysDistinct) (hc : setting.host.cancelled world = false)
  (hlimit : setting.registry.configuration.maxDrainSteps = none)
  (hanswers : ∀ depth, Option.Rel Answer.Permutes (interpret setting world tree root depth)
    (interpret setting world tree' root depth))
include h h' hk hk' hc hlimit hanswers

/-- Trees whose roots have the same answers have the same responses. -/
theorem execute_permutes {fuel fuel' : Nat} {response response' : Response} {after after' : W}
    (hr : execute setting tree root fuel world = some (response, after))
    (hr' : execute setting tree' root fuel' world = some (response', after')) :
    response.Permutes response' := by
  obtain ⟨depth, a, ha⟩ := exists_interpret h hk hc hlimit hr
  obtain ⟨depth', a', ha'⟩ := exists_interpret h' hk' hc hlimit hr'
  -- At one depth that is great enough for both, the answers are related.
  have hmore : interpret setting world tree root (max depth depth') = some a :=
    answer_mono (Nat.le_max_left ..) ha
  have hmore' : interpret setting world tree' root (max depth depth') = some a' :=
    answer_mono (Nat.le_max_right ..) ha'
  have hrel := hanswers (max depth depth')
  rw [hmore, hmore'] at hrel
  obtain ⟨hpermutes⟩ := hrel
  exact permutes_of_answers hpermutes (matches_of_interpret h hk hc hlimit ha hr).1
    (matches_of_interpret h' hk' hc hlimit ha' hr').1
    (leading_of_interpret h hk hc hlimit ha hr) (leading_of_interpret h' hk' hc hlimit ha' hr')

/-- Trees whose roots have the same answers both have responses, or none has. -/
theorem execute_isSome_iff (hready : ∀ task, ∃ fuel outcome,
      Polling.await setting.host.poll world fuel task = some outcome) :
    (∃ fuel, (execute setting tree root fuel world).isSome)
      ↔ ∃ fuel, (execute setting tree' root fuel world).isSome := by
  rw [ends_iff_interpret h hk hc hlimit hready, ends_iff_interpret h' hk' hc hlimit hready]
  exact exists_congr fun depth => by rw [isSome_of_rel (hanswers depth)]

end

end

/-- The order of selections is the order of keys. Take a document and one with the selections of its
selection sets in another order, where field selections that are merged select one field with the
same arguments in the same order, and the objects of a field have the same types whichever of the
named types of its selections the field has. Without side effects, cancellation or limit both
requests are refused with the same error, or any responses they have differ in the order of keys
and of errors, as far as the errors lead to slots of the data. If all tasks become ready, both have
responses, or none has. -/
theorem executeRequest_shuffles {setting : Setting W O C T} {document document' : Document}
    (h : document.Shuffles document') (hs : setting.registry.schema.WellFormed)
    {name : Option String} (hm : document.CanMerge setting.registry name) {world : W}
    (hk : setting.Keeps world) (hc : setting.host.cancelled world = false)
    (hlimit : setting.registry.configuration.maxDrainSteps = none) {root : O}
    (hf : ∀ tree, setting.registry.selectionTree document name = .ok tree →
      Firm setting world ⟨[], .object (.host root), tree.root.owner, tree.root⟩) :
    (∀ error, setting.registry.selectionTree document name = .error error
        ↔ setting.registry.selectionTree document' name = .error error)
      ∧ (∀ fuel fuel' response response' after after',
        executeRequest setting document name root fuel world = some (response, after) →
        executeRequest setting document' name root fuel' world = some (response', after') →
          response.Permutes response')
      ∧ ((∀ task, ∃ fuel outcome,
          Polling.await setting.host.poll world fuel task = some outcome) →
        ((∃ fuel, (executeRequest setting document name root fuel world).isSome)
          ↔ ∃ fuel, (executeRequest setting document' name root fuel world).isSome)) := by
  have htrees := setting.registry.selectionTree_shuffles hs h hm
  unfold executeRequest
  cases ht : setting.registry.selectionTree document name with
  | error error =>
    rw [ht] at htrees
    cases ht' : setting.registry.selectionTree document' name with
    | ok tree' =>
      rw [ht'] at htrees
      cases htrees
    | error error' =>
      rw [ht'] at htrees
      cases htrees
      refine ⟨fun _ => Iff.rfl, ?_, fun _ => Iff.rfl⟩
      rintro fuel fuel' response response' after after' ⟨⟩ ⟨⟩
      exact Response.permutes_self rfl
  | ok tree =>
    rw [ht] at htrees
    cases ht' : setting.registry.selectionTree document' name with
    | error error' =>
      rw [ht'] at htrees
      cases htrees
    | ok tree' =>
      rw [ht'] at htrees
      obtain ⟨howner, hn⟩ : tree.root.owner = tree'.root.owner
          ∧ tree.root.Shuffles tree'.root := by
        cases htrees with
        | ok hboth => exact hboth
      have hpure := hk.sideEffectFree hs ht
      have hpure' := hk.sideEffectFree hs ht'
      have hkeys := selectionTree_keysDistinct ht
      have hkeys' := selectionTree_keysDistinct ht'
      have hanswers := interpret_shuffles howner hn (hf tree ht)
      refine ⟨fun error => ?_, ?_, ?_⟩
      · constructor <;> nofun
      · intro fuel fuel' response response' after after' hr hr'
        exact execute_permutes hpure hpure' hkeys hkeys' hc hlimit hanswers hr hr'
      · exact execute_isSome_iff hpure hpure' hkeys hkeys' hc hlimit hanswers

/-! ## Animals in another order -/

/-- A schema in which the fields of dogs have narrower types than their interface promises. -/
def zooSchema : Schema where
  types := Schema.builtIn ["Int"] ++
    [⟨"Query", .object []
        [{ name := "pet", type := .named "Animal" }, { name := "items", type := .named "Items" },
         { name := "pick", type := .named "String",
           arguments := [⟨"a", .named "Int", none⟩, ⟨"b", .named "Int", none⟩] }]⟩,
     ⟨"Animal", .interface []
        [{ name := "name", type := .named "String" }, { name := "friend", type := .named "Animal" },
         { name := "herd", type := .named "Herd" }]⟩,
     ⟨"Dog", .object ["Animal"]
        [{ name := "name", type := .named "String" }, { name := "friend", type := .named "Dog" },
         { name := "herd", type := .named "Pack" }]⟩,
     ⟨"Cat", .object ["Animal"]
        [{ name := "name", type := .named "String" }, { name := "friend", type := .named "Animal" },
         { name := "herd", type := .named "Herd" }]⟩,
     ⟨"Herd", .interface [] [{ name := "totalCount", type := .named "Int" }]⟩,
     ⟨"Pack", .object ["Herd"] [{ name := "totalCount", type := .named "Int" }]⟩,
     ⟨"Items", .object []
        [{ name := "nodes", type := .list (.nonNullNamed "Int") },
         { name := "broken", type := .named "Int" }]⟩]
  query := "Query"
  mutation := none
  subscription := none

/-- Dogs may promise narrower types than their interface does, so the schema is well formed. -/
theorem zooSchema_wellFormed : zooSchema.WellFormed :=
  ⟨["Int"], _, rfl, by decide +kernel⟩

/-- The selection of a field. -/
def select (owner name : String) (type : TypeRef) (selections : List Selection) : Selection :=
  .field ⟨0, none, name, [], [], owner, type⟩ selections

/-- The selection of the pet, with what is selected on it. -/
def selectPet (selections : List Selection) : Selection :=
  select "Query" "pet" (.named "Animal") selections

/-- The selection of the name of the friend of an animal, and of other fields of the friend. -/
def selectFriend (owner friend : String) (others : List Selection) : Selection :=
  select owner "friend" (.named friend)
    (others ++ [select friend "name" (.named "String") []])

/-- Selections on dogs. -/
def onDogs (selections : List Selection) : Selection :=
  .inlineFragment ⟨0, some "Dog", []⟩ selections

/-- One query. -/
def query (selections : List Selection) : Document := ⟨[⟨.query, none, selections⟩], []⟩

/-- The friend of a pet, of which dogs have one of a narrower type. -/
def friendDocument : Document :=
  query [selectPet [selectFriend "Animal" "Animal" [],
    onDogs [selectFriend "Dog" "Dog" [select "Dog" "__typename" (.nonNullNamed "String") []]]]]

/-- The friend with the fragment first. -/
def shuffledFriendDocument : Document :=
  query [selectPet [
    onDogs [selectFriend "Dog" "Dog" [select "Dog" "__typename" (.nonNullNamed "String") []]],
    selectFriend "Animal" "Animal" []]]

/-- A host of one dog, which is its own friend. -/
def friendSetting : Setting Unit Unit Unit Unit :=
  let bare : Setting Unit Unit Unit Unit := bareSetting fun _ => .ready (.ok .null)
  { bare with
    host := { bare.host with
      typeName := fun _ => "Dog"
      call := fun _ getter _ world =>
        (some (.ok (if getter == "name" then .value (.string "Rex") else .object (.host ()))),
          world) }
    registry := { schema := zooSchema } }

/-- Neither the host of the dog nor what is registered changes the world. -/
theorem friendSetting_keeps : friendSetting.Keeps () where
  host := ⟨fun _ _ => rfl, fun _ _ _ => rfl, fun _ _ _ => rfl, fun _ => rfl⟩
  registered _ h := by cases h
  deferred _ _ h := by cases h

/-- The two selections on the pet have changed places. -/
theorem friendDocument_shuffles : friendDocument.Shuffles shuffledFriendDocument := by
  refine ⟨.cons ⟨rfl, rfl, .intro (.cons (.field rfl ?_) .nil) (.refl _)⟩ .nil, .nil⟩
  exact .intro (forall₂_shuffles _) (.swap ..)

/-- Whether the field selections are of one field without arguments that has no list type. -/
def sameSimple (pick other : Pick) : Bool :=
  pick.field.name == other.field.name && pick.selections.isEmpty == other.selections.isEmpty
    && pick.field.arguments.isEmpty && other.field.arguments.isEmpty
    && match pick.field.type, other.field.type with
      | .named _, .named _ | .nonNullNamed _, .nonNullNamed _ => true
      | _, _ => false

/-- Field selections of one simple field without arguments may be merged. -/
theorem merges_of_sameSimple {pick other : Pick} (h : sameSimple pick other = true) :
    pick.Merges other := by
  simp only [sameSimple, Bool.and_eq_true, beq_iff_eq, List.isEmpty_iff] at h
  obtain ⟨⟨⟨⟨hname, hselections⟩, harguments⟩, harguments'⟩, htype⟩ := h
  refine ⟨hname, harguments.trans harguments'.symm, ?_, hselections⟩
  split at htype
  · next hp ho =>
    rw [hp, ho]
    exact .named _ _
  · next hp ho =>
    rw [hp, ho]
    exact .nonNullNamed _ _
  · cases htype

/-- Whatever selections of the document meet on one key may be merged. -/
theorem friendDocument_canMerge : friendDocument.CanMerge friendSetting.registry none := by
  intro operation rootType ho hr type
  obtain rfl : ⟨.query, none, _⟩ = operation := Option.some.inj ho
  obtain rfl : "Query" = rootType := Option.some.inj hr
  by_cases htype : type = "Query"
  · subst htype
    exact MergeContext.canMerge_of_checks (fun _ _ => merges_of_sameSimple) 4 (by decide +kernel)
  · rw [MergeContext.rootPicks, if_neg htype]
    exact MergeContext.canMerge_of_checks (fun _ _ => merges_of_sameSimple) 0 rfl

/-- What the getters of the dog answer: the dog itself, or its name. -/
theorem outcomeOf_friendSetting {field : FieldDef} {arguments : Fields}
    {value : FieldValue Unit Unit Unit}
    (h : outcomeOf friendSetting () (.object (.host ())) (.ofField field) arguments = .ok value) :
    value = .object (.host ()) ∨ value = .value (.string "Rex") := by
  have houtcome : outcomeOf friendSetting () (.object (.host ())) (.ofField field) arguments
      = .ok (if field.name == "name" then .value (.string "Rex") else .object (.host ())) := by
    rw [outcomeOf, Descriptor.resolve_of_getter? (Descriptor.getter?_ofField field)]
    rfl
  rw [houtcome] at h
  cases h
  split
  · exact .inr rfl
  · exact .inl rfl

/-- All fields of a request have the dog or its name, and none is a connection. -/
theorem finds_friendSetting {document : Document} {name : Option String}
    {tree : SelectionTree (Definition Unit Unit Unit Unit)}
    (ht : friendSetting.registry.selectionTree document name = .ok tree)
    {frame : Frame Unit Unit Unit Unit} {invocation : Invocation Unit Unit Unit Unit}
    {type : TypeRef} {value : FieldValue Unit Unit Unit}
    (h : Finds friendSetting () frame invocation type value)
    (hw : Node.Within tree.root frame.node) (hs : frame.source = .object (.host ())) :
    Node.Within tree.root invocation.node ∧ invocation.descriptor.connection = none
      ∧ (value = .object (.host ()) ∨ value = .value (.string "Rex")) := by
  induction h with
  | @field frame child definition value hc hd ho =>
    have hchild := within_of_mem_included hw hc
    obtain ⟨type, field, hdefinition⟩ := friendSetting.registry.exists_definition?
      zooSchema_wellFormed ht hchild (List.mem_of_mem_head? hd)
    obtain ⟨entry, he, -⟩ | ⟨field, hfield⟩ := Registry.mem_registered_or_eq_ofField hdefinition
    · cases he
    · obtain ⟨declared, hdeclared⟩ := Descriptor.exists_ofField_eq (W := Unit) (O := Unit)
        (C := Unit) (T := Unit) field
      rw [hs, hfield] at ho
      refine ⟨hchild, ?_, outcomeOf_friendSetting ho⟩
      show definition.descriptor.connection = none
      rw [hfield, hdeclared]
  | item _ _ hl hi ih =>
    obtain ⟨-, -, rfl | rfl⟩ := ih hw hs <;> cases hl
  | task _ _ ih => obtain ⟨-, -, h | h⟩ := ih hw hs <;> cases h
  | deferred _ _ ih => obtain ⟨-, -, h | h⟩ := ih hw hs <;> cases h
  | inside _ ho _ ih ih' =>
    obtain ⟨hinner, -, rfl | rfl⟩ := ih hw hs
    · cases ho
      exact ih' hinner rfl
    · cases ho

/-- It does not matter that the friend has the type of either field selection. -/
theorem friendSetting_firm {document : Document} {name : Option String}
    {tree : SelectionTree (Definition Unit Unit Unit Unit)}
    (ht : friendSetting.registry.selectionTree document name = .ok tree) :
    Firm friendSetting () ⟨[], .object (.host ()), tree.root.owner, tree.root⟩ := by
  intro invocation type value hv
  obtain ⟨-, hconnection, hvalue⟩ := finds_friendSetting ht hv .root rfl
  refine .inr ⟨hconnection, .inr ?_⟩
  rintro fields rfl
  rcases hvalue with h | h <;> cases h

/-- In another order the friend has its keys in another order. -/
theorem executeRequest_shuffles_friendDocument :
    friendDocument.Shuffles shuffledFriendDocument ∧ zooSchema.WellFormed
      ∧ friendDocument.CanMerge friendSetting.registry none ∧ friendSetting.Keeps ()
      ∧ ∃ response response',
        executeRequest friendSetting friendDocument none () 1 () = some (response, ())
        ∧ executeRequest friendSetting shuffledFriendDocument none () 1 () = some (response', ())
        ∧ response.Permutes response'
        ∧ response.data = some (.object [("pet", .object [("friend",
          .object [("name", .string "Rex"), ("__typename", .string "Dog")])])])
        ∧ response'.data = some (.object [("pet", .object [("friend",
          .object [("__typename", .string "Dog"), ("name", .string "Rex")])])]) := by
  have hrun : executeRequest friendSetting friendDocument none () 1 () = some _ := rfl
  have hrun' : executeRequest friendSetting shuffledFriendDocument none () 1 () = some _ := rfl
  have hpermutes := (executeRequest_shuffles friendDocument_shuffles zooSchema_wellFormed
    friendDocument_canMerge friendSetting_keeps rfl rfl
    (fun _ ht => friendSetting_firm ht)).2.1 1 1 _ _ _ _ hrun hrun'
  exact ⟨friendDocument_shuffles, zooSchema_wellFormed, friendDocument_canMerge,
    friendSetting_keeps, _, _, hrun, hrun', hpermutes, rfl, rfl⟩

/-! ## Where the order of selections matters -/

/-- A registry with a pet whose friend does not name its type, a list with a null, and a resolver
that answers with the name of its first argument. -/
def strictRegistry : Registry Unit Unit Unit Unit :=
  let fixed (value : Json) : Descriptor Unit Unit Unit Unit :=
    { strategy := .custom fun _ _ => pure (.ok (.value value)) }
  let first : Resolver Unit Unit Unit Unit := fun _ arguments =>
    pure (.ok (.value (.string ((arguments.head?.map Prod.fst).getD ""))))
  let pet : Json := .object
    [("__typename", .string "Dog"), ("friend", .object [("name", .string "Rex")]),
     ("herd", .array [])]
  { schema := zooSchema
    registered :=
      [(("Query", "pet"), ⟨.registered 0, fixed pet⟩),
       (("Query", "items"),
        ⟨.registered 1, { (fixed (.array [.null])) with connection := some [] }⟩),
       (("Query", "pick"), ⟨.registered 2, { strategy := .custom first }⟩),
       (("Dog", "herd"), ⟨.registered 3, { name := some "herd", connection := some [] }⟩)] }

/-- The host of the dog with that registry. -/
def strictSetting : Setting Unit Unit Unit Unit :=
  { friendSetting with registry := strictRegistry }

/-- The selection of the friend of an animal and of its herd. -/
def selectAnimals (owner friend herd : String) : List Selection :=
  [selectFriend owner friend [],
   select owner "herd" (.named herd) [select herd "totalCount" (.named "Int") []]]

/-- The selection of a field with two arguments. -/
def selectPick (arguments : List (String × Literal)) : Selection :=
  .field ⟨0, none, "pick", arguments, [], "Query", .named "String"⟩ []

/-- The selection of the nodes of a connection. -/
def selectNodes : Selection := select "Items" "nodes" (.list (.nonNullNamed "Int")) []

/-- The selection of a field that the connection does not support. -/
def selectBroken : Selection := select "Items" "broken" (.named "Int") []

/-- A pet, a connection and a field with arguments, each selected in the one order. -/
def strictDocument : Document :=
  query [
    selectPet
      (selectAnimals "Animal" "Animal" "Herd" ++ [onDogs (selectAnimals "Dog" "Dog" "Pack")]),
    select "Query" "items" (.named "Items") [selectNodes, selectBroken],
    selectPick [("a", .int 1), ("b", .int 2)], selectPick [("b", .int 2), ("a", .int 1)]]

/-- The same in another order. -/
def shuffledStrictDocument : Document :=
  query [
    selectPet
      ([onDogs (selectAnimals "Dog" "Dog" "Pack")] ++ selectAnimals "Animal" "Animal" "Herd"),
    select "Query" "items" (.named "Items") [selectBroken, selectNodes],
    selectPick [("b", .int 2), ("a", .int 1)], selectPick [("a", .int 1), ("b", .int 2)]]

/-- The selections on the pet, the connection and the field with arguments have changed places. -/
theorem strictDocument_shuffles : strictDocument.Shuffles shuffledStrictDocument := by
  refine ⟨.cons ⟨rfl, rfl, .intro ?_ (.cons _ (.cons _ (.swap ..)))⟩ .nil, .nil⟩
  refine .cons (.field rfl ?_) (.cons (.field rfl ?_) (forall₂_shuffles _))
  · exact .intro (forall₂_shuffles _) List.perm_append_comm
  · exact .intro (forall₂_shuffles _) (.swap ..)

/-- A selection of the friend and the herd fits a type whose fields have the types it says. -/
theorem fits_selectAnimals {owner friend herd : String} {friends name herds count : FieldDef}
    (hf : zooSchema.field? owner "friend" = some friends) (hft : friends.type = .named friend)
    (hn : zooSchema.field? friend "name" = some name) (hnt : name.type = .named "String")
    (hh : zooSchema.field? owner "herd" = some herds) (hht : herds.type = .named herd)
    (hc : zooSchema.field? herd "totalCount" = some count) (hct : count.type = .named "Int") :
    ∀ selection ∈ selectAnimals owner friend herd, selection.Fits zooSchema owner := by
  have hname : (select friend "name" (.named "String") []).Fits zooSchema friend :=
    .field rfl hn hnt nofun
  have hcount : (select herd "totalCount" (.named "Int") []).Fits zooSchema herd :=
    .field rfl hc hct nofun
  refine List.forall_mem_cons.2 ⟨.field rfl hf hft ?_, List.forall_mem_singleton.2 ?_⟩
  · exact List.forall_mem_singleton.2 hname
  · exact .field rfl hh hht (List.forall_mem_singleton.2 hcount)

/-- Each field of the document is one that its owner declares. -/
theorem strictDocument_fits : strictDocument.Fits zooSchema := by
  refine ⟨List.forall_mem_singleton.2 ⟨"Query", rfl, ?_⟩, nofun⟩
  refine List.forall_mem_cons.2 ⟨.field rfl rfl rfl ?_, List.forall_mem_cons.2
    ⟨.field rfl rfl rfl ?_, List.forall_mem_cons.2 ⟨?_, List.forall_mem_singleton.2 ?_⟩⟩⟩
  · refine List.forall_mem_append.2 ⟨fits_selectAnimals rfl rfl rfl rfl rfl rfl rfl rfl, ?_⟩
    exact List.forall_mem_singleton.2
      (.inlineFragment (fits_selectAnimals rfl rfl rfl rfl rfl rfl rfl rfl))
  · exact List.forall_mem_cons.2
      ⟨.field rfl rfl rfl nofun, List.forall_mem_singleton.2 (.field rfl rfl rfl nofun)⟩
  · exact .field rfl rfl rfl nofun
  · exact .field rfl rfl rfl nofun

/-- Neither the host nor the resolvers registered change the world. -/
theorem strictSetting_keeps : strictSetting.Keeps () where
  host := friendSetting_keeps.host
  registered entry h := by
    have hentry : entry ∈ strictRegistry.registered := h
    simp only [strictRegistry, List.mem_cons, List.not_mem_nil, or_false] at hentry
    -- The resolvers answer at once, and the connections have no operations.
    obtain rfl | rfl | rfl | rfl := hentry <;> refine ⟨?_, ?_, ?_⟩
    all_goals
      intro other ho
      cases ho
    · exact fun _ _ => rfl
    · exact fun _ _ => rfl
    · exact fun _ ho => by cases ho
    · exact fun _ _ => rfl
    · exact fun _ ho => by cases ho
  deferred _ _ h := by cases h

/-- The order of selections is seen where one of the conditions fails. A JSON object that does not
name its type has the type of the first field selection, and so has a connection; a resolver sees
the order of the arguments of the first one; and errors below a connection are found only if their
fields stand before the one that makes it null. -/
theorem executeRequest_shuffles_not :
    zooSchema.WellFormed ∧ strictDocument.Fits zooSchema
      ∧ strictDocument.Shuffles shuffledStrictDocument ∧ strictSetting.Keeps ()
      ∧ ∃ response response',
        executeRequest strictSetting strictDocument none () 1 () = some (response, ())
        ∧ executeRequest strictSetting shuffledStrictDocument none () 1 () = some (response', ())
        ∧ response.data = some (.object
          [("pet", .object [("friend", .null), ("herd", .null)]), ("items", .null),
           ("pick", .string "a")])
        ∧ response'.data = some (.object
          [("pet", .object [("friend", .object [("name", .string "Rex")]),
            ("herd", .object [("totalCount", .number (.int 0))])]), ("items", .null),
           ("pick", .string "b")])
        ∧ response.errors.map ResponseError.path
          = [some [.key "pet", .key "friend"], some [.key "pet", .key "herd"],
             some [.key "items", .key "nodes", .index 0], some [.key "items"]]
        ∧ response'.errors.map ResponseError.path = [some [.key "items"]]
        ∧ ¬ Option.Rel Json.Permuted response.data response'.data := by
  have hrun : executeRequest strictSetting strictDocument none () 1 () = some _ := rfl
  have hrun' : executeRequest strictSetting shuffledStrictDocument none () 1 () = some _ := rfl
  refine ⟨zooSchema_wellFormed, strictDocument_fits, strictDocument_shuffles, strictSetting_keeps,
    _, _, hrun, hrun', rfl, rfl, rfl, rfl, ?_⟩
  intro hrel
  obtain ⟨hpermuted⟩ := hrel
  have hname := hpermuted.isSome_at? [.key "pet", .key "friend", .key "name"]
  cases hname

end Execution

end QueryEngine
