import QueryEngine.Proofs.Execution.Blind
import QueryEngine.Proofs.Execution.Moment

/-!
# Executions without side effects

`SideEffectFree` says that nothing the engine asks of a host, a resolver, a task or an operation on
pages changes the world; whatever is asked then is blind where the world stays as it is
(`SideEffectFree.blindTo`). Completing a value then leaves the world as it is (`ofValue_snd`), and
so does resolving an object, where each field is resolved as if it were the only one: a page that
is known already is the page that would be computed (`fieldPart_eq`).
-/

namespace QueryEngine

variable {W O C T α β : Type}

/-! ## Actions -/

/-- The step leaves the world as it is, whatever page it is given. -/
def Step.Keeps (world : W) : Step W O α → Prop
  | .done _ after => after = world
  | .page after next => after = world ∧ ∀ page, (next page world).Keeps world

/-- The result of a step that is given one page whenever it asks. -/
def Step.resultWith (page : Page O) : Step W O α → α
  | .done result _ => result
  | .page world next => (next page world).resultWith page

/-- The action leaves the world as it is. -/
def Action.Keeps (world : W) (action : Action W O α) : Prop :=
  (action world).Keeps world

/-- The page is not known yet, or it is the given one. -/
def Known (page : Page O) (known : Option (Page O)) : Prop :=
  known = none ∨ known = some page

/-- There is one world. -/
def Stays (world v w : W) : Prop :=
  v = world ∧ w = world

/-- To leave a world as it is amounts to being blind where there is no other world. -/
theorem blind_stays_iff {world : W} {change : W → α × W} :
    Blind (Stays world) change ↔ (change world).2 = world := by
  constructor
  · intro h
    exact (h world world ⟨rfl, rfl⟩).2.1
  · rintro h _ _ ⟨rfl, rfl⟩
    exact ⟨rfl, h, h⟩

namespace Step

/-- A step keeps the world just if it comes to the same as itself there. -/
theorem keeps_iff {world : W} {step : Step W O α} :
    step.Keeps world ↔ Alike (Stays world) step step := by
  induction step with
  | done result after =>
    constructor
    · intro h
      exact .done result ⟨h, h⟩
    · rintro (⟨_, h⟩ | _)
      exact h.1
  | page after next ih =>
    constructor
    · rintro ⟨rfl, hn⟩
      refine .page ⟨rfl, rfl⟩ ?_
      rintro page _ _ ⟨rfl, rfl⟩
      exact (ih page _).1 (hn page)
    · rintro (_ | ⟨h, hn⟩)
      exact ⟨h.1, fun page => (ih page _).2 (hn page _ _ ⟨rfl, rfl⟩)⟩

/-- Running a step that keeps the world has one result, whether or not the page is known. -/
theorem runWith_eq {world : W} {page : Page O} {compute : W → Page O × W}
    (hc : compute world = (page, world)) {step : Step W O α} (h : step.Keeps world)
    {known : Option (Page O)} (hk : Known page known) :
    ∃ known', runWith compute known step = (step.resultWith page, known', world)
      ∧ Known page known' := by
  induction step generalizing known with
  | done result after =>
    obtain rfl : after = world := h
    exact ⟨known, by rw [runWith]; rfl, hk⟩
  | page after next ih =>
    obtain ⟨rfl, hn⟩ := h
    rcases hk with rfl | rfl
    · obtain ⟨known', he, hk'⟩ := ih page _ (hn page) (.inr rfl)
      exact ⟨known', by rw [runWith, hc]; exact he, hk'⟩
    · obtain ⟨known', he, hk'⟩ := ih page _ (hn page) (.inr rfl)
      exact ⟨known', by rw [runWith]; exact he, hk'⟩

end Step

namespace Action

/-- Asking for the page changes nothing by itself. -/
theorem keeps_page (world : W) : (page : Action W O (Page O)).Keeps world :=
  ⟨rfl, fun _ => rfl⟩

/-- Leaving a world as it is amounts to being blind where there is no other world. -/
theorem keeps_iff {world : W} {action : Action W O α} :
    action.Keeps world ↔ action.Blind (Stays world) := by
  constructor
  · rintro h _ _ ⟨rfl, rfl⟩
    exact Step.keeps_iff.1 h
  · intro h
    exact Step.keeps_iff.2 (h world world ⟨rfl, rfl⟩)

end Action

/-! ## Hosts, operations and descriptors -/

/-- The host changes nothing when it is asked. -/
structure Host.Keeps (world : W) (host : Host W O C T) : Prop where
  lookup : ∀ handle key, (host.lookup handle key world).2 = world
  call : ∀ handle method arguments, (host.call handle method arguments world).2 = world
  capability : ∀ handle method arguments,
    (host.capability handle method arguments world).2 = world
  poll : ∀ task, (host.poll task world).2 = world

/-- The operation changes nothing. -/
def PageOperation.Keeps (world : W) (operation : PageOperation W O) : Prop :=
  ∀ items value, (operation.run items value world).2 = world

/-- Neither the resolver of the field nor what belongs to it changes anything. -/
structure Descriptor.Keeps (world : W) (descriptor : Descriptor W O C T) : Prop where
  resolver : ∀ resolver, descriptor.strategy = .custom resolver → ∀ source arguments,
    (resolver source arguments).Keeps world
  lazyResolver : ∀ resolver, descriptor.lazyResolver = some resolver → ∀ marker arguments,
    (resolver marker arguments world).2 = world
  connection : ∀ operations, descriptor.connection = some operations →
    ∀ operation ∈ operations, operation.Keeps world

/-- The operations of a connection change nothing. -/
def Source.Keeps (world : W) : Source W O C → Prop
  | .object _ => True
  | .connection c => ∀ operation ∈ c.operations, operation.Keeps world

/-- An object has no operations that could change the world. -/
theorem Source.keeps_object (world : W) (object : Object O) :
    (Source.object object : Source W O C).Keeps world := trivial

section
variable {world : W}

/-- A host that changes nothing is blind where there is no other world. -/
theorem Host.Keeps.blind {host : Host W O C T} (h : host.Keeps world) :
    host.Blind (Stays world) where
  lookup handle key := blind_stays_iff.2 (h.lookup handle key)
  call handle method arguments := blind_stays_iff.2 (h.call handle method arguments)
  capability handle method arguments := blind_stays_iff.2 (h.capability handle method arguments)

/-- An operation that changes nothing is blind where there is no other world. -/
theorem PageOperation.Keeps.blind {operation : PageOperation W O} (h : operation.Keeps world) :
    operation.Blind (Stays world) :=
  fun items value => blind_stays_iff.2 (h items value)

/-- A source that changes nothing is blind where there is no other world. -/
theorem Source.Keeps.blind {source : Source W O C} (h : source.Keeps world) :
    source.Blind (Stays world) := by
  cases source with
  | object object => trivial
  | connection connection => exact fun operation ho => (h operation ho).blind

/-- A descriptor that changes nothing is blind where there is no other world. -/
theorem Descriptor.Keeps.blind {descriptor : Descriptor W O C T} (h : descriptor.Keeps world) :
    descriptor.Blind (Stays world) where
  resolver resolver hr source _ arguments :=
    Action.keeps_iff.1 (h.resolver resolver hr source arguments)
  lazyResolver resolver hr marker arguments :=
    blind_stays_iff.2 (h.lazyResolver resolver hr marker arguments)
  connection operations ho operation hm := (h.connection operations ho operation hm).blind

/-- Making the page of a connection changes nothing, if no operation does. -/
theorem Connection.paginate_snd {host : Host W O C T} {connection : Connection W O C}
    (h : (Source.connection connection).Keeps world) :
    (connection.paginate host world).2 = world :=
  blind_stays_iff.1 (Connection.blind_paginate h.blind)

/-- Resolving a field changes nothing, whichever way it is resolved. -/
theorem Descriptor.keeps_resolve {host : Host W O C T} (hh : host.Keeps world)
    {descriptor : Descriptor W O C T} (hd : descriptor.Keeps world) {source : Source W O C}
    (hs : source.Keeps world) (arguments : Fields) :
    (descriptor.resolve host source arguments).Keeps world :=
  Action.keeps_iff.2 (Descriptor.blind_resolve hh.blind hd.blind hs.blind)

end

namespace Execution

/-- Nothing that an execution of a tree may ask for changes the world. -/
structure SideEffectFree (setting : Setting W O C T) (root : Node (Definition W O C T))
    (world : W) : Prop where
  host : setting.host.Keeps world
  descriptors : ∀ node, Node.Within root node → ∀ definition ∈ node.definitions,
    definition.descriptor.Keeps world
  deferred : ∀ type resolver, setting.registry.deferred.lookup type = some (some resolver) →
    ∀ marker arguments, (resolver marker arguments world).2 = world

/-- The work involves nothing that changes the world. -/
def Work.Keeps (world : W) : Work W O C T → Prop
  | .object frame => frame.source.Keeps world
  | .task pending => pending.invocation.descriptor.Keeps world
  | .outcome pending _ => pending.invocation.descriptor.Keeps world

section
variable {setting : Setting W O C T} {root : Node (Definition W O C T)} {world : W}

/-- An execution without side effects is blind where there is no other world. -/
theorem SideEffectFree.blindTo (h : SideEffectFree setting root world) :
    BlindTo (Stays world) setting root where
  host := h.host.blind
  descriptors node hn definition hd := (h.descriptors node hn definition hd).blind
  deferred type resolver hr marker arguments :=
    blind_stays_iff.2 (h.deferred type resolver hr marker arguments)

/-- The connection that a field is answered with has the operations of the field. -/
theorem keeps_connection {invocation : Invocation W O C T}
    (hd : invocation.descriptor.Keeps world) {type : TypeRef} {backing : Backing C}
    {connection : Connection W O C}
    (h : connection? setting invocation type backing = some connection) :
    (Source.connection connection).Keeps world :=
  fun operation ho => hd.connection _ (connection?_operations h) operation ho

namespace Piece

/-- The work that a single value leaves changes nothing, if the descriptor of its field does not. -/
theorem Single.keeps {invocation : Invocation W O C T} (hd : invocation.descriptor.Keeps world)
    {type : TypeRef} {path : Path} {value : FieldValue O C T} {piece : Piece W O C T}
    (hs : piece.Single setting invocation type path value) {work : Work W O C T}
    (hw : work ∈ piece.works) : work.Keeps world := by
  cases hs with
  | leaf | failed => cases hw
  | waiting task =>
    have hw : work ∈ [Work.task ⟨path, type, invocation, task⟩] := hw
    rw [List.mem_singleton.1 hw]
    exact hd
  | object source concrete hs =>
    have hw : work ∈ [Work.object ⟨path, source, concrete, invocation.node⟩] := hw
    rw [List.mem_singleton.1 hw]
    rcases hs with ⟨object, rfl⟩ | ⟨backing, connection, hc, rfl⟩
    · exact Source.keeps_object (C := C) world object
    · exact keeps_connection hd hc

variable (h : SideEffectFree setting root world)
include h

/-- Completing a value that is no list changes nothing. -/
theorem ofSingle_snd {invocation : Invocation W O C T}
    (hd : invocation.descriptor.Keeps world) (type : TypeRef) (path : Path)
    (value : FieldValue O C T) :
    (ofSingle setting invocation type path value world).2 = world := by
  cases value with
  | lazy | list => rfl
  | deferred marker =>
    simp only [ofSingle]
    split
    · rfl
    · rename_i resolver hr
      exact blind_stays_iff.1 (h.blindTo.lazyResolver hd.blind hr _)
  | value json =>
    cases json with
    | array | object =>
      simp only [ofSingle]
      split <;> rfl
    | null | bool | number | string => rfl
  | object | collection =>
    simp only [ofSingle]
    split <;> rfl

omit h in
/-- Parts that leave the world as it is are independent of each other. -/
theorem each_eq_map {α : Type} {part : α → W → (Segment × Piece W O C T) × W}
    (hp : ∀ value, (part value world).2 = world) (values : List α) :
    each part values world = (values.map fun value => (part value world).1, world) := by
  induction values with
  | nil => rfl
  | cons value rest ih => simp [each, hp, ih]

omit h in
/-- A list is put together from its items, each completed on its own. -/
theorem ofItems_eq {make : Path → FieldValue O C T → W → Piece W O C T × W} {path : Path}
    (hm : ∀ path value, (make path value world).2 = world) (items : List (FieldValue O C T)) :
    ofItems make path items world
      = (gather .array (items.zipIdx.map fun item =>
          (.index item.2, (make (path ++ [.index item.2]) item.1 world).1)), world) := by
  rw [ofItems, each_eq_map fun item => hm (path ++ [.index item.2]) item.1]

/-- Completing a value changes nothing, and leaves work that changes nothing. -/
theorem keeps_ofValue {invocation : Invocation W O C T}
    (hd : invocation.descriptor.Keeps world) (type : TypeRef) (path : Path)
    (value : FieldValue O C T) :
    (ofValue setting invocation type path value world).2 = world
      ∧ ∀ work ∈ (ofValue setting invocation type path value world).1.works,
        work.Keeps world := by
  induction type generalizing path value with
  | named name | nonNullNamed name =>
    exact ⟨ofSingle_snd h hd .., fun _ => (single_ofSingle ..).keeps hd⟩
  | list item ih | nonNullList item ih =>
    simp only [ofValue]
    cases listItems? setting.host value with
    | none => exact ⟨ofSingle_snd h hd .., fun _ => (single_ofSingle ..).keeps hd⟩
    | some items =>
      simp only [ofItems_eq fun path value => (ih path value).1]
      refine ⟨trivial, ?_⟩
      intro work hw
      obtain ⟨part, hp, hw⟩ := mem_works_gather.1 hw
      obtain ⟨value, -, rfl⟩ := List.mem_map.1 hp
      exact (ih _ _).2 work hw

/-- Completing a value changes nothing, if the descriptor of its field does not. -/
theorem ofValue_snd {invocation : Invocation W O C T}
    (hd : invocation.descriptor.Keeps world) (type : TypeRef) (path : Path)
    (value : FieldValue O C T) :
    (ofValue setting invocation type path value world).2 = world :=
  (keeps_ofValue h hd type path value).1

end Piece

end

/-! ## Fields -/

/-- The page that the fields of an object share; an empty one where there is no connection. -/
def pageOf (setting : Setting W O C T) (world : W) : Source W O C → Page O
  | .object _ => .ok []
  | .connection connection => (connection.paginate setting.host world).1

/-- The outcome of a field, resolved in one world. -/
def outcomeOf (setting : Setting W O C T) (world : W) (source : Source W O C)
    (descriptor : Descriptor W O C T) (arguments : Fields) : Outcome O C T :=
  (descriptor.resolve setting.host source arguments world).resultWith
    (pageOf setting world source)

/-- Whether an error of a field fails the whole object: on a connection, if it says that something
is not supported, or if the page cannot be had. -/
def failsObject (setting : Setting W O C T) (world : W) (source : Source W O C)
    (error : FieldError) : Bool :=
  match source with
  | .object _ => false
  | .connection _ => error.isMissingCapability || ! (pageOf setting world source).isOk

/-- The piece of a field, resolved in one world, or the error that fails the whole object. -/
def Piece.ofField (setting : Setting W O C T) (world : W) (frame : Frame W O C T)
    (child : Node (Definition W O C T)) : Except FieldError (Piece W O C T) :=
  let path := frame.path ++ [.key child.key]
  if child.isTypename then .ok (leaf (.string frame.concrete))
  else
    match child.definition? with
    | none =>
      .ok (failed path
        (.new ("cannot resolve field '" ++ child.name ++ "' on '" ++ frame.concrete ++ "'"))
        FieldError.Code.fieldResolution)
    | some definition =>
      let descriptor := definition.descriptor
      let arguments := descriptor.coerceArguments child.arguments setting.vars
      match outcomeOf setting world frame.source descriptor arguments with
      | .ok value =>
        .ok (ofValue setting ⟨child, descriptor, arguments⟩ child.type path value world).1
      | .error error =>
        if failsObject setting world frame.source error then .error error
        else .ok (failed path error FieldError.Code.fieldResolution)

section
variable {setting : Setting W O C T} {root : Node (Definition W O C T)} {world : W}
  (h : SideEffectFree setting root world) {frame : Frame W O C T}
  (hs : frame.source.Keeps world)
include h hs

/-- Resolving a field has one outcome, whether or not the page of the connection is known. -/
theorem resolveField_eq {descriptor : Descriptor W O C T} (hd : descriptor.Keeps world)
    (arguments : Fields) {known : Option (Page O)}
    (hk : Known (pageOf setting world frame.source) known) :
    ∃ known', resolveField setting frame descriptor arguments known world
        = (outcomeOf setting world frame.source descriptor arguments, known', world)
      ∧ Known (pageOf setting world frame.source) known' := by
  have hkeeps : (descriptor.resolve setting.host frame.source arguments world).Keeps world :=
    Descriptor.keeps_resolve h.host hd hs arguments
  cases hsource : frame.source with
  | object object =>
    rw [hsource] at hkeeps hk
    have hc : (fun world => (.ok [], world) : W → Page O × W) world = (.ok [], world) := rfl
    obtain ⟨known', he, -⟩ := Step.runWith_eq hc hkeeps (.inl rfl)
    refine ⟨known, ?_, hk⟩
    simp only [resolveField, hsource, Action.run, Action.runWith, outcomeOf, pageOf, he]
  | connection connection =>
    rw [hsource] at hkeeps hk hs
    have hc : connection.paginate setting.host world
        = (pageOf setting world (.connection connection), world) :=
      Prod.ext rfl (Connection.paginate_snd hs)
    obtain ⟨known', he, hk'⟩ := Step.runWith_eq hc hkeeps hk
    refine ⟨known', ?_, hk'⟩
    simp only [resolveField, hsource, Action.runWith, outcomeOf, he]

omit h in
/-- Whether an error fails the whole object does not depend on the page being known. -/
theorem failsFrame_eq (error : FieldError) {known : Option (Page O)}
    (hk : Known (pageOf setting world frame.source) known) :
    ∃ known', failsFrame setting frame error known world
        = (failsObject setting world frame.source error, known', world)
      ∧ Known (pageOf setting world frame.source) known' := by
  cases hsource : frame.source with
  | object object =>
    rw [hsource] at hk
    exact ⟨known, by simp [failsFrame, failsObject, hsource], hk⟩
  | connection connection =>
    rw [hsource] at hk hs
    cases hm : error.isMissingCapability with
    | true => exact ⟨known, by simp [failsFrame, failsObject, hsource, hm], hk⟩
    | false =>
      have hc : connection.paginate setting.host world
          = (pageOf setting world (.connection connection), world) :=
        Prod.ext rfl (Connection.paginate_snd hs)
      obtain ⟨known', he, hk'⟩ := Step.runWith_eq hc (Action.keeps_page world) hk
      refine ⟨known', ?_, hk'⟩
      simp only [failsFrame, hsource, hm, Action.runWith, he, Bool.false_eq_true, if_false]
      simp only [failsObject, hm, Action.page, Step.resultWith, Bool.false_or]
      cases pageOf setting world (.connection connection) <;> rfl

/-- A field of an object contributes the same whether or not the page is known. -/
theorem fieldPart_eq {child : Node (Definition W O C T)} (hc : Node.Within root child)
    {known : Option (Page O)} (hk : Known (pageOf setting world frame.source) known) :
    ∃ known', Piece.fieldPart setting frame child known world
        = (Piece.ofField setting world frame child, known', world)
      ∧ Known (pageOf setting world frame.source) known' := by
  simp only [Piece.fieldPart, Piece.ofField]
  cases child.isTypename with
  | true => exact ⟨known, rfl, hk⟩
  | false =>
    cases hdef : child.definition? with
    | none => exact ⟨known, rfl, hk⟩
    | some definition =>
      have hd := h.descriptors child hc definition (List.mem_of_mem_head? hdef)
      obtain ⟨known', he, hk'⟩ := resolveField_eq h hs hd
        (definition.descriptor.coerceArguments child.arguments setting.vars) hk
      simp only [he, Bool.false_eq_true, if_false]
      cases outcomeOf setting world frame.source definition.descriptor
        (definition.descriptor.coerceArguments child.arguments setting.vars) with
      | ok value =>
        refine ⟨known', ?_, hk'⟩
        simp only [Piece.ofValue_snd h
          (show (Invocation.mk child definition.descriptor _).descriptor.Keeps world from hd)]
      | error error =>
        obtain ⟨known'', hf, hk''⟩ := failsFrame_eq hs error hk'
        refine ⟨known'', ?_, hk''⟩
        simp only [hf]
        cases failsObject setting world frame.source error <;> rfl

omit hs in
/-- What a field contributes leaves only work that changes nothing. -/
theorem keeps_ofField {child : Node (Definition W O C T)} (hc : Node.Within root child)
    {piece : Piece W O C T} (hp : Piece.ofField setting world frame child = .ok piece)
    {work : Work W O C T} (hw : work ∈ piece.works) : work.Keeps world := by
  revert hp
  simp only [Piece.ofField]
  split
  · rintro ⟨⟩
    cases hw
  · split
    · rintro ⟨⟩
      cases hw
    · rename_i definition hdef
      have hd := h.descriptors child hc definition (List.mem_of_mem_head? hdef)
      split
      · rintro ⟨⟩
        exact (Piece.keeps_ofValue h hd _ _ _).2 work hw
      · split
        · rintro ⟨⟩
        · rintro ⟨⟩
          cases hw

end

/-- The error of a field that fails the whole object. -/
def failure? (setting : Setting W O C T) (world : W) (frame : Frame W O C T)
    (child : Node (Definition W O C T)) : Option FieldError :=
  match Piece.ofField setting world frame child with
  | .ok _ => none
  | .error error => some error

section
variable {setting : Setting W O C T} {root : Node (Definition W O C T)} {world : W}
  (h : SideEffectFree setting root world) {frame : Frame W O C T}
  (hs : frame.source.Keeps world)
include h hs

/-- The fields of an object are resolved independently of each other; the first one that fails the
object is the last one that is resolved. -/
theorem fieldParts_eq {children : List (Node (Definition W O C T))}
    (hc : ∀ child ∈ children, Node.Within root child) {known : Option (Page O)}
    (hk : Known (pageOf setting world frame.source) known) :
    ∃ parts, Piece.fieldParts setting frame children known world
        = (parts, children.findSome? (failure? setting world frame), world)
      ∧ (∀ part ∈ parts, ∃ child ∈ children,
        Piece.ofField setting world frame child = .ok part.2)
      ∧ (children.findSome? (failure? setting world frame) = none →
        List.Forall₂ (fun child part => part.1 = .key child.key
          ∧ Piece.ofField setting world frame child = .ok part.2) children parts) := by
  induction children generalizing known with
  | nil => exact ⟨[], rfl, nofun, fun _ => .nil⟩
  | cons child rest ih =>
    obtain ⟨known', he, hk'⟩ := fieldPart_eq h hs (hc child (List.mem_cons_self ..)) hk
    rw [Piece.fieldParts, he, List.findSome?_cons]
    cases hf : Piece.ofField setting world frame child with
    | error error =>
      refine ⟨[], by simp [failure?, hf], nofun, ?_⟩
      intro hn
      simp [failure?, hf] at hn
    | ok piece =>
      obtain ⟨parts, hparts, hmem, hall⟩ :=
        ih (fun other ho => hc other (List.mem_cons_of_mem _ ho)) hk'
      refine ⟨(.key child.key, piece) :: parts, by simp [failure?, hf, hparts], ?_, ?_⟩
      · intro part hp
        rcases List.mem_cons.1 hp with rfl | hp
        · exact ⟨child, List.mem_cons_self .., hf⟩
        · obtain ⟨other, ho, hpart⟩ := hmem part hp
          exact ⟨other, List.mem_cons_of_mem _ ho, hpart⟩
      · intro hn
        simp only [failure?, hf] at hn
        exact .cons ⟨rfl, hf⟩ (hall hn)

end

end Execution

end QueryEngine
