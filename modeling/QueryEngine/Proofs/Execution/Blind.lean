import QueryEngine.Execution.Run
import QueryEngine.Proofs.Selection.Within

/-!
# Worlds that cannot be told apart

`Blind` says that a change gives the same result in worlds that are alike, and takes them to worlds
that are alike. If what a host answers does and what belongs to the descriptor of a field, then so
does resolving the field (`Descriptor.blind_resolve`). `BlindTo` says this of all that the engine
may ask for in an execution, the polls of tasks left out.
-/

namespace QueryEngine

variable {W O C T α β : Type}

/-! ## Changes and actions -/

/-- From worlds that are alike come the same result and worlds that are alike. -/
def Blind (like : W → W → Prop) (change : W → α × W) : Prop :=
  ∀ v w, like v w → (change v).1 = (change w).1 ∧ like (change v).2 (change w).2

/-- The results are the same, and the worlds are alike. -/
def Meet (like : W → W → Prop) (a b : α × β × W) : Prop :=
  a.1 = b.1 ∧ a.2.1 = b.2.1 ∧ like a.2.2 b.2.2

/-- The steps come to the same in worlds that are alike. -/
inductive Step.Alike (like : W → W → Prop) : Step W O α → Step W O α → Prop
  | done (result : α) {v w : W} (h : like v w) : Alike like (.done result v) (.done result w)
  | page {v w : W} {next next' : Page O → W → Step W O α} (h : like v w)
    (hn : ∀ page v w, like v w → Alike like (next page v) (next' page w)) :
    Alike like (.page v next) (.page w next')

/-- The action comes to the same in worlds that are alike. -/
def Action.Blind (like : W → W → Prop) (action : Action W O α) : Prop :=
  ∀ v w, like v w → Step.Alike like (action v) (action w)

section
variable {like : W → W → Prop}

/-- Going on alike from steps that are alike comes to the same. -/
theorem Step.Alike.bind {first second : Step W O α} (h : Alike like first second)
    {next : α → Action W O β} (hn : ∀ result, (next result).Blind like) :
    Alike like (first.bind next) (second.bind next) := by
  induction h with
  | done result h => exact hn result _ _ h
  | page h _ ih => exact .page h fun page v w hl => ih page v w hl

/-- Steps that come to the same have the same result on a connection. -/
theorem Step.Alike.runWith {compute : W → Page O × W} (hc : QueryEngine.Blind like compute)
    {first second : Step W O α} (h : Alike like first second) (known : Option (Page O)) :
    Meet like (first.runWith compute known) (second.runWith compute known) := by
  induction h generalizing known with
  | done result h => exact ⟨rfl, rfl, h⟩
  | @page v w next next' h _ ih =>
    cases known with
    | some answer => exact ih answer v w h (some answer)
    | none =>
      obtain ⟨he, hl⟩ := hc v w h
      simp only [Step.runWith, he]
      exact ih _ _ _ hl _

namespace Action

/-- A result that is there already tells no worlds apart. -/
theorem blind_pure (result : α) : (pure result : Action W O α).Blind like :=
  fun _ _ h => .done result h

/-- Going on blindly after a blind action is blind. -/
theorem Blind.bind {action : Action W O α} (h : action.Blind like) {next : α → Action W O β}
    (hn : ∀ result, (next result).Blind like) : (action >>= next).Blind like :=
  fun v w hl => (h v w hl).bind hn

/-- A change of the world that is blind is a blind action. -/
theorem blind_ofWorld {change : W → α × W} (h : QueryEngine.Blind like change) :
    (ofWorld change : Action W O α).Blind like := by
  intro v w hl
  obtain ⟨he, hl'⟩ := h v w hl
  simp only [ofWorld, he]
  exact .done _ hl'

/-- Asking for the page tells no worlds apart. -/
theorem blind_page : (page : Action W O (Page O)).Blind like :=
  fun _ _ h => .page h fun page _ _ hl => .done page hl

/-- Without a connection an action has one result, in worlds that are alike. -/
theorem Blind.run {action : Action W O α} (h : action.Blind like) :
    QueryEngine.Blind like action.run := by
  intro v w hl
  have hempty : QueryEngine.Blind like fun world : W => ((.ok [], world) : Page O × W) :=
    fun _ _ hl => ⟨rfl, hl⟩
  obtain ⟨he, -, hl'⟩ := (h v w hl).runWith hempty none
  exact ⟨he, hl'⟩

end Action

end

/-! ## Hosts, operations and descriptors -/

/-- What the host answers, tasks left out, does not tell worlds apart. -/
structure Host.Blind (like : W → W → Prop) (host : Host W O C T) : Prop where
  lookup : ∀ handle key, QueryEngine.Blind like (host.lookup handle key)
  call : ∀ handle method arguments, QueryEngine.Blind like (host.call handle method arguments)
  capability : ∀ handle method arguments,
    QueryEngine.Blind like (host.capability handle method arguments)

/-- The operation does not tell worlds apart. -/
def PageOperation.Blind (like : W → W → Prop) (operation : PageOperation W O) : Prop :=
  ∀ items value, QueryEngine.Blind like (operation.run items value)

/-- The operations of a connection do not tell worlds apart. -/
def Source.Blind (like : W → W → Prop) : Source W O C → Prop
  | .object _ => True
  | .connection c => ∀ operation ∈ c.operations, operation.Blind like

/-- Neither the resolver of the field nor what belongs to it tells worlds apart. -/
structure Descriptor.Blind (like : W → W → Prop) (descriptor : Descriptor W O C T) : Prop where
  resolver : ∀ resolver, descriptor.strategy = .custom resolver → ∀ source, source.Blind like →
    ∀ arguments, (resolver source arguments).Blind like
  lazyResolver : ∀ resolver, descriptor.lazyResolver = some resolver → ∀ marker arguments,
    QueryEngine.Blind like (resolver marker arguments)
  connection : ∀ operations, descriptor.connection = some operations →
    ∀ operation ∈ operations, operation.Blind like

section
variable {like : W → W → Prop} {host : Host W O C T} {arguments : Fields}

/-- Blind operations make a page in a row without telling worlds apart. -/
theorem Page.blind_applyAll {operations : List (PageOperation W O)}
    (h : ∀ operation ∈ operations, operation.Blind like) (items : List (Item O)) :
    Blind like (applyAll arguments operations items) := by
  induction operations generalizing items with
  | nil => exact fun _ _ hl => ⟨rfl, hl⟩
  | cons operation rest ih =>
    have ih := ih fun other ho => h other (List.mem_cons_of_mem _ ho)
    intro v w hl
    simp only [applyAll]
    split
    · exact ih items v w hl
    · exact ih items v w hl
    · rename_i value _ _
      obtain ⟨he, hl'⟩ := h operation (List.mem_cons_self ..) items value v w hl
      generalize operation.run items value v = ran at he hl' ⊢
      generalize operation.run items value w = ran' at he hl' ⊢
      obtain ⟨kept, v'⟩ := ran
      obtain ⟨kept', w'⟩ := ran'
      obtain rfl : kept = kept' := he
      cases kept with
      | ok kept => exact ih kept v' w' hl'
      | error error => exact ⟨rfl, hl'⟩

/-- A connection of blind operations makes its page without telling worlds apart. -/
theorem Connection.blind_paginate {connection : Connection W O C}
    (h : (Source.connection connection).Blind like) :
    Blind like (connection.paginate host) := by
  intro v w hl
  have hpage : Blind like (Page.applyAll connection.arguments connection.operations _) :=
    Page.blind_applyAll h (Page.whole (connection.backing.elements host))
  obtain ⟨he, hl'⟩ := hpage v w hl
  exact ⟨congrArg (Except.map (Page.cap connection.maxPageSize)) he, hl'⟩

/-- A connection under a blind host answers its getters without telling worlds apart. -/
theorem Connection.blind_call (hh : host.Blind like) (connection : Connection W O C)
    (method : String) : (connection.call host method arguments).Blind like := by
  have hanswer : ∀ f : List (Item O) → FieldValue O C T,
      (do return some ((← Action.page).map f) :
        Action W O (Option (Outcome O C T))).Blind like :=
    fun f => Action.blind_page.bind fun _ => Action.blind_pure _
  simp only [call]
  split
  · exact hanswer _
  · split
    · exact hanswer _
    · split
      · exact hanswer _
      · split
        · exact hanswer _
        · refine Action.blind_ofWorld ?_
          cases connection.backing with
          | host handle => exact hh.capability _ _ _
          | values items => exact fun _ _ hl => ⟨rfl, hl⟩

/-- Indexing a source under a blind host tells no worlds apart. -/
theorem Source.blind_lookup (hh : host.Blind like) (key : String) (source : Source W O C) :
    (source.lookup host key).Blind like := by
  cases source with
  | object object =>
    cases object with
    | host handle => exact Action.blind_ofWorld (hh.lookup _ _)
    | json | edge => exact Action.blind_pure _
  | connection connection => exact Action.blind_pure _

/-- Calling a getter of a source under a blind host tells no worlds apart. -/
theorem Source.blind_call (hh : host.Blind like) (method : String) (source : Source W O C) :
    (source.call host method arguments).Blind like := by
  cases source with
  | object object =>
    cases object with
    | host handle => exact Action.blind_ofWorld (hh.call _ _ _)
    | json | edge => exact Action.blind_pure _
  | connection connection => exact connection.blind_call hh method

/-- Resolving a field does not tell worlds apart, whichever way it is resolved. -/
theorem Descriptor.blind_resolve (hh : host.Blind like) {descriptor : Descriptor W O C T}
    (hd : descriptor.Blind like) {source : Source W O C} (hs : source.Blind like) :
    (descriptor.resolve host source arguments).Blind like := by
  simp only [resolve]
  split
  · rename_i resolver hr
    exact hd.resolver resolver hr source hs arguments
  · exact (source.blind_lookup hh _).bind fun _ => Action.blind_pure _
  · split
    · exact Action.blind_pure _
    · exact (source.blind_call hh _).bind fun _ => Action.blind_pure _

end

namespace Execution

/-- Nothing that an execution of a tree may ask for, tasks left out, tells worlds apart. -/
structure BlindTo (like : W → W → Prop) (setting : Setting W O C T)
    (root : Node (Definition W O C T)) : Prop where
  host : setting.host.Blind like
  descriptors : ∀ node, Node.Within root node → ∀ definition ∈ node.definitions,
    definition.descriptor.Blind like
  deferred : ∀ type resolver, setting.registry.deferred.lookup type = some (some resolver) →
    ∀ marker arguments, QueryEngine.Blind like (resolver marker arguments)

section
variable {like : W → W → Prop} {setting : Setting W O C T} {root : Node (Definition W O C T)}

/-- A lazy resolver that is found for a field of the tree is one that is blind. -/
theorem BlindTo.lazyResolver (h : BlindTo like setting root)
    {descriptor : Descriptor W O C T} (hd : descriptor.Blind like) {marker : Marker}
    {resolver : LazyResolver W T}
    (hr : setting.registry.lazyResolver descriptor marker = .ok resolver) (arguments : Fields) :
    QueryEngine.Blind like (resolver marker arguments) := by
  simp only [Registry.lazyResolver] at hr
  split at hr
  · cases hr
  · rename_i fallback hl
    split at hr
    · rename_i chosen ho
      cases hr
      cases hlazy : descriptor.lazyResolver with
      | some own =>
        rw [hlazy] at ho
        cases ho
        exact hd.lazyResolver resolver hlazy marker arguments
      | none =>
        rw [hlazy] at ho
        obtain rfl : fallback = some resolver := ho
        exact h.deferred _ resolver hl marker arguments
    · cases hr

/-- A connection has the operations that its field declares. -/
theorem connection?_operations {invocation : Invocation W O C T} {type : TypeRef}
    {backing : Backing C} {connection : Connection W O C}
    (h : connection? setting invocation type backing = some connection) :
    invocation.descriptor.connection = some connection.operations := by
  simp only [connection?] at h
  split at h
  · rename_i operations ho _
    cases h
    exact ho
  · cases h

/-- A connection has the operations of its field's descriptor, so it is as blind as that. -/
theorem blind_connection {invocation : Invocation W O C T}
    (hd : invocation.descriptor.Blind like) {type : TypeRef} {backing : Backing C}
    {connection : Connection W O C}
    (h : connection? setting invocation type backing = some connection) :
    (Source.connection connection).Blind like :=
  hd.connection _ (connection?_operations h)

end

end Execution

end QueryEngine
