import Mathlib.Data.List.Perm.Basic
import QueryEngine.Proofs.Execution.Interpreter
import QueryEngine.Proofs.Json.Permuted
import QueryEngine.Proofs.Selection.Shuffling

/-!
# Nodes in another order have the same answers

The interpreter does not see in which order the children of a node stand, except in the order of
keys and of errors (`answer_shuffles`). A node has the type of its first field selection, and where
the field selections have different named types the type of an object can depend on which of them
is first: a connection has the type of its field, and so has a JSON object that does not name its
type unless there is only one possible type. An object is `Firm` where its execution comes to no
such value.
-/

namespace QueryEngine.Execution

variable {W O C T : Type}

/-! ## What fields have -/

section
variable (setting : Setting W O C T) (world : W)

/-- The object that a value is for a field, where the type is expected. -/
inductive Offers (invocation : Invocation W O C T) (type : TypeRef) :
    FieldValue O C T → Source W O C → Prop
  | json (fields : Fields) : Offers invocation type (.value (.object fields))
    (.object (.json
      (((fields.lookup "__typename").bind Json.asString?).getD (onlyType invocation.node type))
      fields))
  | object (object : Object O) : Offers invocation type (.object object) (.object object)
  | values {items : List Json} {connection : Connection W O C}
    (h : connection? setting invocation type (.values items) = some connection) :
    Offers invocation type (.value (.array items)) (.connection connection)
  | collection {collection : C} {connection : Connection W O C}
    (h : connection? setting invocation type (.host collection) = some connection) :
    Offers invocation type (.collection collection) (.connection connection)

/-- While the object is executed, the field is found to have the value where the type is expected:
as the outcome of its resolver, as an item of a list or as the outcome of a task. The field is one
of the object, or of an object that a value of one of its fields is. -/
inductive Finds : Frame W O C T → Invocation W O C T → TypeRef → FieldValue O C T → Prop
  | field {frame : Frame W O C T} {child : Node (Definition W O C T)}
    {definition : Definition W O C T} {value : FieldValue O C T}
    (hc : child ∈ Piece.included setting frame) (hd : child.definition? = some definition)
    (ho : outcomeOf setting world frame.source definition.descriptor
      (definition.descriptor.coerceArguments child.arguments setting.vars) = .ok value) :
    Finds frame ⟨child, definition.descriptor,
      definition.descriptor.coerceArguments child.arguments setting.vars⟩ child.type value
  | item {frame : Frame W O C T} {invocation : Invocation W O C T} {type inner : TypeRef}
    {value item : FieldValue O C T} {items : List (FieldValue O C T)}
    (h : Finds frame invocation type value) (ht : type.item? = some inner)
    (hl : listItems? setting.host value = some items) (hi : item ∈ items) :
    Finds frame invocation inner item
  | task {frame : Frame W O C T} {invocation : Invocation W O C T} {type : TypeRef} {task : T}
    {fuel : Nat} {value : FieldValue O C T} (h : Finds frame invocation type (.lazy task))
    (ha : Polling.await setting.host.poll world fuel task = some (.ok value)) :
    Finds frame invocation type value
  | deferred {frame : Frame W O C T} {invocation : Invocation W O C T} {type : TypeRef}
    {marker : Marker} {resolver : LazyResolver W T}
    (h : Finds frame invocation type (.deferred marker))
    (hr : setting.registry.lazyResolver invocation.descriptor marker = .ok resolver) :
    Finds frame invocation type (.lazy (resolver marker invocation.arguments world).1)
  | inside {frame : Frame W O C T} {invocation inner : Invocation W O C T} {type last : TypeRef}
    {value result : FieldValue O C T} {path : Path} {source : Source W O C}
    (h : Finds frame invocation type value) (hs : Offers setting invocation type value source)
    (hb : Finds ⟨path, source, source.typeName setting.host, invocation.node⟩ inner last result) :
    Finds frame inner last result

/-- The objects that the fields of the object come to have the same types whichever of the named
types of their field selections the fields have: there is only one, or the field is no connection
and its objects have one possible type or, being JSON, name theirs. -/
def Firm (frame : Frame W O C T) : Prop :=
  ∀ invocation type value, Finds setting world frame invocation type value →
    invocation.node.Uniform ∨ invocation.descriptor.connection = none ∧
      (invocation.node.buckets.length = 1 ∨ ∀ fields, value = .value (.object fields) →
        ((fields.lookup "__typename").bind Json.asString?).isSome)

variable {setting world}

/-- What an object of a field comes to, the object around it comes to. -/
theorem Firm.inside {frame : Frame W O C T} (h : Firm setting world frame)
    {invocation : Invocation W O C T} {type : TypeRef} {value : FieldValue O C T}
    (hv : Finds setting world frame invocation type value) {source : Source W O C}
    (hs : Offers setting invocation type value source) (path : Path) :
    Firm setting world ⟨path, source, source.typeName setting.host, invocation.node⟩ :=
  fun inner last result hb => h inner last result (.inside hv hs hb)

end

/-! ## Related results -/

section
variable {α β γ δ : Type} {R : α → β → Prop} {S : γ → δ → Prop} {f : α → Option γ}
  {g : β → Option δ}

/-- Lists whose members have related results have related results. -/
theorem rel_mapM {xs : List α} {ys : List β} (h : List.Forall₂ R xs ys)
    (hf : ∀ x y, R x y → Option.Rel S (f x) (g y)) :
    Option.Rel (List.Forall₂ S) (xs.mapM f) (ys.mapM g) := by
  induction h with
  | nil => exact .some .nil
  | @cons x y xs ys hxy _ ih =>
    rw [mapM_cons_eq, mapM_cons_eq]
    have hfirst := hf x y hxy
    generalize f x = a at hfirst
    generalize g y = b at hfirst
    generalize xs.mapM f = as at ih
    generalize ys.mapM g = bs at ih
    cases hfirst with
    | none => exact .none
    | some hab =>
      cases ih with
      | none => exact .none
      | some habs => exact .some (.cons hab habs)

end

/-- Lists in another order have results in another order. -/
theorem rel_mapM_shuffles {α γ : Type} {R : α → α → Prop} {S : γ → γ → Prop}
    {f g : α → Option γ} {xs ys : List α} (h : Shuffles R xs ys)
    (hf : ∀ x y, R x y → Option.Rel S (f x) (g y)) :
    Option.Rel (Shuffles S) (xs.mapM f) (ys.mapM g) := by
  obtain ⟨middle, hm, hp⟩ := h
  have hrel := rel_mapM hm hf
  have hsome : (middle.mapM g).isSome ↔ (ys.mapM g).isSome := by
    simp only [isSome_mapM, hp.mem_iff]
  generalize xs.mapM f = x at hrel ⊢
  cases hmiddle : middle.mapM g with
  | none =>
    rw [hmiddle] at hrel hsome
    obtain hnone : ys.mapM g = none := by simpa using hsome
    rw [hnone]
    cases hrel
    exact .none
  | some bs =>
    rw [hmiddle] at hrel
    obtain ⟨cs, hcs, hperm⟩ := List.perm_comp_forall₂ hp.symm (mapM_eq_some_iff.1 hmiddle)
    rw [mapM_eq_some_iff.2 hcs]
    cases hrel with
    | some hab => exact .some ⟨bs, hab, hperm.symm⟩

/-- If one of related values is missing, both are. -/
theorem isSome_of_rel {α β : Type} {R : α → β → Prop} {x : Option α} {y : Option β}
    (h : Option.Rel R x y) : x.isSome = y.isSome := by
  cases h <;> rfl

/-- Values that are made from related values are related. -/
theorem rel_map {α β γ δ : Type} {R : α → β → Prop} {S : γ → δ → Prop} {f : α → γ} {g : β → δ}
    {x : Option α} {y : Option β} (h : Option.Rel R x y)
    (hf : ∀ a b, x = some a → R a b → S (f a) (g b)) : Option.Rel S (x.map f) (y.map g) := by
  cases h with
  | none => exact .none
  | some h => exact .some (hf _ _ rfl h)

/-! ## Answers in another order -/

/-- The answers have the same value up to the order of keys, and errors at the same paths. -/
structure Answer.Permutes (a b : Answer) : Prop where
  value : a.value.Permuted b.value
  paths : (a.errors.map ResponseError.path).Perm (b.errors.map ResponseError.path)

/-- A leaf is its own reordering. -/
theorem permutes_leaf (value : Json) : (Answer.leaf value).Permutes (.leaf value) :=
  ⟨.refl value, .refl _⟩

/-- One error at one path is like another. -/
theorem permutes_failed (path : Path) (error error' : FieldError) (code code' : String) :
    (Answer.failed path error code).Permutes (.failed path error' code') :=
  ⟨.refl .null, .refl _⟩

/-- The errors of parts in another order are at the same paths. -/
theorem perm_paths {parts parts' : List (Segment × Answer)}
    (h : Shuffles (fun p p' => p.1 = p'.1 ∧ p.2.Permutes p'.2) parts parts') :
    ((parts.flatMap (·.2.errors)).map ResponseError.path).Perm
      ((parts'.flatMap (·.2.errors)).map ResponseError.path) := by
  rw [List.map_flatMap, List.map_flatMap]
  refine Shuffles.perm (h.flatMap fun p p' hp => ?_)
  exact ⟨_, List.forall₂_refl _, hp.2.paths⟩

/-- Items with the same answers up to order make a list that has one. -/
theorem permutes_array {parts parts' : List (Segment × Answer)}
    (h : List.Forall₂ (fun p p' => p.1 = p'.1 ∧ p.2.Permutes p'.2) parts parts') :
    (Answer.gather .array parts).Permutes (.gather .array parts') := by
  refine ⟨.array ?_, perm_paths ⟨_, h, .refl _⟩⟩
  rw [List.forall₂_map_left_iff, List.forall₂_map_left_iff, List.forall₂_map_right_iff,
    List.forall₂_map_right_iff]
  exact h.imp fun _ _ hp => hp.2.value

/-- Fields with the same answers up to order make an object that has one. -/
theorem permutes_object {parts parts' : List (Segment × Answer)}
    (hn : (parts.map fun part => part.1.text).Nodup)
    (h : Shuffles (fun p p' => p.1 = p'.1 ∧ p.2.Permutes p'.2) parts parts') :
    (Answer.gather .object parts).Permutes (.gather .object parts') := by
  refine ⟨?_, perm_paths h⟩
  obtain ⟨middle, hm, hp⟩ := h
  have hfields : ∀ parts : List (Segment × Answer),
      Container.object.build (parts.map fun part => (part.1, part.2.value))
        = .object (parts.map fun part => (part.1.text, part.2.value)) := by
    intro parts
    simp [Container.build]
  rw [Answer.gather, Answer.gather, hfields, hfields]
  refine .object ?_ ?_ ?_ (hp.map _)
  · simpa [Function.comp_def] using hn
  · rw [List.map_map, List.map_map, ← List.forall₂_eq_eq_eq, List.forall₂_map_left_iff,
      List.forall₂_map_right_iff]
    exact hm.imp fun _ _ hp => congrArg Segment.text hp.1
  · rw [List.map_map, List.map_map, List.forall₂_map_left_iff, List.forall₂_map_right_iff]
    exact hm.imp fun _ _ hp => hp.2.value

/-! ## Work in another order -/

/-- The invocations are of one field, where types of one shape are expected. The node of the second
one is that of the first one in another order. -/
structure Invocation.Shuffles (invocation other : Invocation W O C T) (type type' : TypeRef) :
    Prop where
  node : invocation.node.Shuffles other.node
  descriptor : invocation.descriptor = other.descriptor
  arguments : invocation.arguments = other.arguments
  shape : type.SameShape type'
  inner : invocation.node.Uniform → type.inner = type'.inner

/-- The second work is the first one with its node in another order. -/
inductive Work.Shuffles (setting : Setting W O C T) (world : W) :
    Work W O C T → Work W O C T → Prop
  | object {frame : Frame W O C T} {node : Node (Definition W O C T)}
    (hn : frame.node.Shuffles node) (hf : Firm setting world frame) :
    Work.Shuffles setting world (.object frame) (.object { frame with node })
  | task {frame : Frame W O C T} {path : Path} {type type' : TypeRef}
    {invocation other : Invocation W O C T} {task : T}
    (hs : invocation.Shuffles other type type') (hf : Firm setting world frame)
    (hv : Finds setting world frame invocation type (.lazy task)) :
    Work.Shuffles setting world (.task ⟨path, type, invocation, task⟩)
      (.task ⟨path, type', other, task⟩)

/-! ## Nodes in another order -/

section
variable {node node' : Node (Definition W O C T)} (h : node.Shuffles node')
include h

/-- Shuffling the selections of a node keeps the types it is opened for. -/
theorem hasBucket_shuffles (concrete : String) :
    node.hasBucket concrete = node'.hasBucket concrete := by
  have hany := h.types.any_eq (f := (· == concrete))
  simpa [Node.hasBucket, List.any_map, Function.comp_def] using hany

/-- A JSON object that does not name its type has the same type if there is only one, or if the
fields have the same named type. -/
theorem onlyType_shuffles {type type' : TypeRef}
    (ht : type.inner = type'.inner ∨ node.buckets.length = 1) :
    onlyType node type = onlyType node' type' := by
  have htypes := h.types
  have hlength : node.buckets.length = node'.buckets.length := by
    simpa using htypes.length_eq
  by_cases hone : node.buckets.length = 1
  · obtain ⟨bucket, hb⟩ := List.length_eq_one_iff.1 hone
    obtain ⟨bucket', hb'⟩ := List.length_eq_one_iff.1 (hlength ▸ hone)
    rw [hb, hb', List.map_singleton, List.map_singleton, List.singleton_perm_singleton] at htypes
    rw [onlyType, onlyType, hb, hb']
    exact htypes
  · have hinner : ∀ (node : Node (Definition W O C T)) (type : TypeRef),
        node.buckets.length ≠ 1 → onlyType node type = type.inner := by
      intro node type hne
      unfold onlyType
      split
      · next heq => exact absurd (congrArg List.length heq) hne
      · rfl
    rw [hinner node type hone, hinner node' type' (hlength ▸ hone)]
    exact ht.resolve_right hone

end

/-! ## Values in another order -/

section
variable {invocation other : Invocation W O C T} {type type' : TypeRef}
  (hs : invocation.Shuffles other type type')
include hs

/-- A connection has the same type, unless it has none. -/
theorem connection?_shuffles (setting : Setting W O C T)
    (hi : type.inner = type'.inner ∨ invocation.descriptor.connection = none)
    (backing : Backing C) :
    connection? setting invocation type backing = connection? setting other type' backing := by
  unfold connection?
  rw [← hs.descriptor, ← hs.arguments]
  have hitem := hs.shape.isNone_item?
  obtain hinner | hnone := hi
  · rw [hinner]
    cases hx : type.item? <;> cases hx' : type'.item? <;> simp_all
  · rw [hnone]

omit hs in
/-- Types of one shape answer null alike. -/
theorem answerNull_shuffles (ht : type.SameShape type') (path : Path) :
    (answerNull path type).Permutes (answerNull path type') := by
  unfold answerNull
  rw [← ht.isNonNull_eq]
  split
  · exact permutes_failed ..
  · exact permutes_leaf _

variable {setting : Setting W O C T} {world : W} {deeper : Work W O C T → Option Answer}
  (hd : ∀ work work', work.Shuffles setting world work' →
    Option.Rel Answer.Permutes (deeper work) (deeper work'))
  {frame : Frame W O C T} (hf : Firm setting world frame) {value : FieldValue O C T}
  (hv : Finds setting world frame invocation type value)
include hd hf hv

/-- An object that both fields are offered is answered alike up to order. -/
theorem answerSource_shuffles {source : Source W O C}
    (ho : Offers setting invocation type value source) (path : Path) :
    Option.Rel Answer.Permutes (answerSource setting deeper invocation type path source)
      (answerSource setting deeper other type' path source) := by
  simp only [answerSource, ← hs.node.own.isComposite, ← hasBucket_shuffles hs.node]
  split
  · exact .some (permutes_failed ..)
  · split
    · exact .some (permutes_failed ..)
    · exact hd _ _ (.object hs.node (hf.inside hv ho path))

/-- A value that is no list has the same answer. -/
theorem answerSingle_shuffles (path : Path) :
    Option.Rel Answer.Permutes (answerSingle setting world deeper invocation type path value)
      (answerSingle setting world deeper other type' path value) := by
  have hfirm := hf invocation type value hv
  have hconnection := connection?_shuffles hs setting (hfirm.imp hs.inner And.left)
  have hsource : ∀ source, Offers setting invocation type value source →
      Option.Rel Answer.Permutes (answerSource setting deeper invocation type path source)
        (answerSource setting deeper other type' path source) :=
    fun source ho => answerSource_shuffles hs hd hf hv ho path
  cases value with
  | lazy task => exact hd _ _ (.task hs hf hv)
  | deferred marker =>
    simp only [answerSingle, ← hs.descriptor, ← hs.arguments]
    cases hr : setting.registry.lazyResolver invocation.descriptor marker with
    | error error => exact .some (permutes_failed ..)
    | ok resolver => exact hd _ _ (.task hs hf (.deferred hv hr))
  | value json =>
    cases json with
    | null => exact .some (answerNull_shuffles hs.shape path)
    | array items =>
      simp only [answerSingle, ← hconnection]
      cases hc : connection? setting invocation type (.values items) with
      | none => exact .some (permutes_leaf _)
      | some connection => exact hsource _ (.values hc)
    | object fields =>
      have hconcrete :
          ((fields.lookup "__typename").bind Json.asString?).getD (onlyType invocation.node type)
            = ((fields.lookup "__typename").bind Json.asString?).getD
              (onlyType other.node type') := by
        obtain huniform | ⟨-, hone | hnamed⟩ := hfirm
        · rw [onlyType_shuffles hs.node (.inl (hs.inner huniform))]
        · rw [onlyType_shuffles hs.node (.inr hone)]
        · obtain ⟨concrete, hc⟩ := Option.isSome_iff_exists.1 (hnamed fields rfl)
          rw [hc, Option.getD_some, Option.getD_some]
      simp only [answerSingle, ← hs.node.own.isComposite, ← hconcrete]
      split
      · exact hsource _ (.json fields)
      · exact .some (permutes_leaf _)
    | bool | number | string => exact .some (permutes_leaf _)
  | object object =>
    simp only [answerSingle, ← hs.shape.isNone_item?]
    split
    · exact hsource _ (.object object)
    · exact .some (permutes_failed ..)
  | collection collection =>
    simp only [answerSingle, ← hconnection]
    cases hc : connection? setting invocation type (.host collection) with
    | none => exact .some (permutes_failed ..)
    | some connection => exact hsource _ (.collection hc)
  | list items => exact .some (permutes_failed ..)

omit hs hd hf hv in
/-- Items that have the same answers make lists that have. -/
theorem answerItems_shuffles {item item' : Path → FieldValue O C T → Option Answer}
    {items : List (FieldValue O C T)}
    (hi : ∀ value ∈ items, ∀ path, Option.Rel Answer.Permutes (item path value) (item' path value))
    (path : Path) :
    Option.Rel Answer.Permutes (answerItems item path items) (answerItems item' path items) := by
  refine rel_map ?_ fun _ _ _ => permutes_array
  have hsame : List.Forall₂ (fun x y : FieldValue O C T × Nat => x = y ∧ x.1 ∈ items)
      items.zipIdx items.zipIdx :=
    List.forall₂_same.2 fun x hx => ⟨rfl, List.fst_mem_of_mem_zipIdx hx⟩
  refine rel_mapM hsame ?_
  rintro ⟨value, index⟩ _ ⟨rfl, hm⟩
  exact rel_map (hi value hm _) fun _ _ _ ha => ⟨rfl, ha⟩

/-- The value of a field has the same answer. -/
theorem answerValue_shuffles (path : Path) :
    Option.Rel Answer.Permutes (answerValue setting world deeper invocation type path value)
      (answerValue setting world deeper other type' path value) := by
  obtain ⟨hn, hdescriptor, harguments, hshape, hinner⟩ := hs
  induction hshape generalizing value path with
  | named name name' =>
    exact answerSingle_shuffles ⟨hn, hdescriptor, harguments, .named name name', hinner⟩ hd hf hv
      path
  | nonNullNamed name name' =>
    exact answerSingle_shuffles ⟨hn, hdescriptor, harguments, .nonNullNamed name name', hinner⟩ hd
      hf hv path
  | list hshape ih =>
    simp only [answerValue]
    cases hl : listItems? setting.host value with
    | none =>
      exact answerSingle_shuffles ⟨hn, hdescriptor, harguments, hshape.list, hinner⟩ hd hf hv path
    | some items =>
      refine answerItems_shuffles ?_ path
      exact fun value hm path => ih (hv.item rfl hl hm) path hinner
  | nonNullList hshape ih =>
    simp only [answerValue]
    cases hl : listItems? setting.host value with
    | none =>
      exact answerSingle_shuffles ⟨hn, hdescriptor, harguments, hshape.nonNullList, hinner⟩ hd hf
        hv path
    | some items =>
      refine answerItems_shuffles ?_ path
      exact fun value hm path => ih (hv.item rfl hl hm) path hinner

end

/-! ## Objects in another order -/

section
variable {setting : Setting W O C T} {world : W} {frame : Frame W O C T}
  {node : Node (Definition W O C T)}

/-- The fields of an object are the same in another order. -/
theorem included_shuffles (setting : Setting W O C T) (hn : frame.node.Shuffles node) :
    Shuffles (fun child child' => child.Shuffles child' ∧ child ∈ Piece.included setting frame)
      (Piece.included setting frame) (Piece.included setting { frame with node }) := by
  have hincluded : Shuffles Node.Shuffles (Piece.included setting frame)
      (Piece.included setting { frame with node }) :=
    Shuffles.rearranges.filter (hn.nodesOf frame.concrete) fun _ _ hc => by rw [hc.own.isIncluded]
  exact hincluded.and_mem

/-- A field fails its object in any order, with the same error. -/
theorem failing?_shuffles {child child' : Node (Definition W O C T)}
    (hc : child.SameField child') :
    failing? setting world frame child = failing? setting world { frame with node } child' := by
  simp only [failing?, ← hc.isTypename_eq, ← hc.definition?_eq, ← hc.arguments]

variable {deeper : Work W O C T → Option Answer}
  (hd : ∀ work work', work.Shuffles setting world work' →
    Option.Rel Answer.Permutes (deeper work) (deeper work'))
  (hf : Firm setting world frame)
include hd hf

/-- A field has the same answer. -/
theorem answerField_shuffles {child child' : Node (Definition W O C T)}
    (hc : child.Shuffles child') (hm : child ∈ Piece.included setting frame) :
    Option.Rel Answer.Permutes (answerField setting world deeper frame child)
      (answerField setting world deeper { frame with node } child') := by
  have hown := hc.own
  simp only [answerField, ← hown.key, ← hown.isTypename_eq, ← hown.definition?_eq,
    ← hown.arguments]
  split
  · exact .some (permutes_leaf _)
  · cases hdef : child.definition? with
    | none => exact .some (permutes_failed ..)
    | some definition =>
      simp only
      cases ho : outcomeOf setting world frame.source definition.descriptor
        (definition.descriptor.coerceArguments child.arguments setting.vars) with
      | error error => exact .some (permutes_failed ..)
      | ok value =>
        let arguments := definition.descriptor.coerceArguments child.arguments setting.vars
        have hs : Invocation.Shuffles ⟨child, definition.descriptor, arguments⟩
            ⟨child', definition.descriptor, arguments⟩ child.type child'.type :=
          ⟨hc, rfl, rfl, hown.shape, hown.inner⟩
        exact answerValue_shuffles hs hd hf (.field hm hdef ho) _

/-- An object has the same answer. -/
theorem answerObject_shuffles (hn : frame.node.Shuffles node) :
    Option.Rel Answer.Permutes (answerObject setting world deeper frame)
      (answerObject setting world deeper { frame with node }) := by
  have hincluded := included_shuffles setting hn
  have hfailing := hincluded.any
    (p := fun child => (failing? setting world frame child).isSome)
    (q := fun child => (failing? setting world { frame with node } child).isSome)
    fun child child' hc => by rw [failing?_shuffles hc.1.own]
  rw [← List.isSome_findSome?, ← List.isSome_findSome?] at hfailing
  unfold answerObject
  generalize (Piece.included setting frame).findSome? _ = error at hfailing
  generalize (Piece.included setting _).findSome? _ = error' at hfailing
  cases error with
  | some error =>
    cases error' with
    | some error' => exact .some ⟨.refl .null, .refl _⟩
    | none => cases hfailing
  | none =>
    cases error' with
    | some error' => cases hfailing
    | none =>
      refine rel_map (rel_mapM_shuffles hincluded ?_) fun parts _ hparts => permutes_object ?_
      · rintro child child' ⟨hc, hm⟩
        exact rel_map (answerField_shuffles hd hf hc hm) fun a a' _ ha =>
          ⟨congrArg Segment.key hc.own.key, ha⟩
      · have hkeys : parts.map (fun part => part.1.text)
            = (Piece.included setting frame).map Node.key := by
          rw [← List.forall₂_eq_eq_eq, List.forall₂_map_left_iff, List.forall₂_map_right_iff]
          refine ((mapM_eq_some_iff.1 hparts).imp ?_).flip
          intro child part hpart
          obtain ⟨a, -, rfl⟩ := Option.map_eq_some_iff.1 hpart
          rfl
        rw [hkeys]
        exact (hn.distinct frame.concrete).sublist (List.filter_sublist.map Node.key)

end

/-- Work in another order has the same answer up to the order of keys and of errors. -/
theorem answer_shuffles {setting : Setting W O C T} {world : W} (depth : Nat)
    {work work' : Work W O C T} (h : work.Shuffles setting world work') :
    Option.Rel Answer.Permutes (answer setting world depth work)
      (answer setting world depth work') := by
  induction depth generalizing work work' with
  | zero => exact .none
  | succ depth ih =>
    cases h with
    | object hn hf => exact answerObject_shuffles (fun _ _ => ih) hf hn
    | @task frame path type type' invocation other task hs hf hv =>
      simp only [answer]
      cases ha : Polling.await setting.host.poll world (depth + 1) task with
      | none => exact .none
      | some outcome =>
        cases outcome with
        | error error => exact .some (permutes_failed ..)
        | ok value => exact answerValue_shuffles hs (fun _ _ => ih) hf (hv.task ha) path

end QueryEngine.Execution
