import QueryEngine.Proofs.Entries
import QueryEngine.Proofs.Schema.Arguments
import QueryEngine.Schema.CachedDescriptor

/-!
# Kept defaults are those of today

A descriptor keeps its default arguments in a cell beside the declarations that they come from.
Whatever was declared, taken over from a field's definition and read before, a read answers the
defaults of the arguments declared by then (`CachedDescriptor.defaultArguments_runAll`): an argument
has the declaration that a builder gave it last, or else the one that came first with a definition
(`ArgumentCall.current`), and stands where it was first declared. `CachedDescriptor.UpToDate` says
how cell and declarations stand to the history, and every call keeps it (`UpToDate.run`). Apart from
the cell the descriptor is the one of a registry (`descriptor_run`, `map_importDefinition`).
-/

namespace QueryEngine

variable {W O C T : Type}

namespace Entries

/-- What a map with distinct keys becomes when its values are changed, read off key by key. -/
theorem mapValues?_eq {κ α β : Type} [DecidableEq κ] {entries : List (κ × α)}
    (h : (entries.map Prod.fst).Nodup) (f : α → Option β) :
    mapValues? f entries = (entries.map Prod.fst).filterMap fun key =>
      ((entries.lookup key).bind f).map fun value => (key, value) := by
  rw [mapValues?, List.filterMap_map]
  refine List.filterMap_congr fun entry he => ?_
  rw [Function.comp_apply, lookup_of_mem h he, Option.bind_some]

end Entries

namespace Descriptor

/-- The literals that have a value are put over the defaults, from the first to the last. -/
theorem overlay_eq_putAll (defaults : Fields) (literals : List (String × Literal))
    (vars : Fields) : overlay defaults literals vars
      = Entries.putAll (Entries.mapValues? (Literal.toJson? vars) literals) defaults := by
  induction literals generalizing defaults with
  | nil => rfl
  | cons entry rest ih =>
    rw [overlay_cons, ih, Entries.mapValues?_cons]
    cases entry.2.toJson? vars <;> rfl

/-- The declared arguments stay where they are, and the new ones come after them. -/
theorem keys_importArguments {known : List String} {descriptor : Descriptor W O C T}
    (h : descriptor.arguments.map Prod.fst = known.eraseDups) (arguments : List ArgumentDef) :
    (descriptor.importArguments arguments).arguments.map Prod.fst
      = (known ++ arguments.map ArgumentDef.name).eraseDups := by
  induction arguments generalizing known descriptor with
  | nil => simpa [importArguments] using h
  | cons first rest ih =>
    rw [importArguments, List.foldl_cons, ← importArguments, List.map_cons, ← List.singleton_append,
      ← List.append_assoc]
    refine ih ?_
    split
    · rename_i hdeclared
      have hknown : first.name ∈ known := by
        rw [← List.mem_eraseDups, ← h]
        by_contra hfresh
        simp [Entries.lookup_eq_none hfresh] at hdeclared
      rw [eraseDups_concat, if_pos hknown, h]
    · exact Entries.keys_put h first.name _

end Descriptor

/-! ## Histories -/

/-- A call on a descriptor, as far as its arguments are concerned. -/
inductive ArgumentCall (W O C T : Type) where
  /-- Declares an argument in a builder. -/
  | declare (name : String) (declaration : ArgumentDeclaration)
  /-- Takes over the arguments of a field's definition. -/
  | imports (arguments : List ArgumentDef)
  /-- Sets anything else. -/
  | update (change : Descriptor W O C T → Descriptor W O C T)
    (keeps : ∀ descriptor, (change descriptor).arguments = descriptor.arguments)
  /-- Reads the defaults. -/
  | defaults
  /-- Reads the arguments of a selection. -/
  | coerce (literals : List (String × Literal)) (vars : Fields)

namespace ArgumentCall

/-- The descriptor and its cell after the call. -/
def run (call : ArgumentCall W O C T) (cached : CachedDescriptor W O C T) :
    CachedDescriptor W O C T :=
  match call with
  | declare name declaration => cached.declareArgument name declaration
  | imports arguments => cached.importArguments arguments
  | update change _ => cached.update change
  | defaults => cached.defaultArguments.2
  | coerce literals vars => (cached.coerceArguments literals vars).2

/-- The descriptor and its cell after the calls, from the first to the last. -/
def runAll (calls : List (ArgumentCall W O C T)) (cached : CachedDescriptor W O C T) :
    CachedDescriptor W O C T :=
  calls.foldl (fun cached call => call.run cached) cached

/-- The same without a cell: reads leave the descriptor as it is. -/
def plain (call : ArgumentCall W O C T) (descriptor : Descriptor W O C T) : Descriptor W O C T :=
  match call with
  | declare name declaration => descriptor.declareArgument name declaration
  | imports arguments => descriptor.importArguments arguments
  | update change _ => change descriptor
  | defaults | coerce .. => descriptor

/-- One more call runs on what the earlier calls left. -/
theorem runAll_concat (calls : List (ArgumentCall W O C T)) (call : ArgumentCall W O C T)
    (cached : CachedDescriptor W O C T) :
    runAll (calls ++ [call]) cached = call.run (runAll calls cached) :=
  List.foldl_append

/-- The arguments that the call is about. -/
def names : ArgumentCall W O C T → List String
  | declare name _ => [name]
  | imports arguments => arguments.map ArgumentDef.name
  | update .. | defaults | coerce .. => []

/-- What a builder declares for an argument, whatever was declared for it before. -/
def declared? (name : String) : ArgumentCall W O C T → Option ArgumentDeclaration
  | declare other declaration => if other = name then some declaration else none
  | imports _ | update .. | defaults | coerce .. => none

/-- What a definition says about an argument, which counts if nothing is declared for it. -/
def offered? (name : String) : ArgumentCall W O C T → Option ArgumentDeclaration
  | imports arguments => (arguments.find? (·.name == name)).map ArgumentDef.declaration
  | declare .. | update .. | defaults | coerce .. => none

/-- What a history says about an argument: the latest declaration by a builder, or else the first
definition that was taken over. -/
def current (calls : List (ArgumentCall W O C T)) (name : String) : Option ArgumentDeclaration :=
  (calls.reverse.findSome? (declared? name)).or (calls.findSome? (offered? name))

/-- The arguments of a history that have a default now, each with it, in the order in which the
arguments were first declared. -/
def currentDefaults (calls : List (ArgumentCall W O C T)) : Fields :=
  (calls.flatMap names).eraseDups.filterMap fun name =>
    ((current calls name).bind ArgumentDeclaration.default?).map fun value => (name, value)

/-- The names of a longer history are those of the shorter one and of the last call. -/
theorem names_concat (calls : List (ArgumentCall W O C T)) (call : ArgumentCall W O C T) :
    (calls ++ [call]).flatMap names = calls.flatMap names ++ call.names := by
  rw [List.flatMap_append, List.flatMap_singleton]

/-- What a history leaves for a name is decided by its last call first: what that declares replaces,
and what it imports fills a gap. -/
theorem current_concat (calls : List (ArgumentCall W O C T)) (call : ArgumentCall W O C T)
    (name : String) :
    current (calls ++ [call]) name
      = (call.declared? name).or ((current calls name).or (call.offered? name)) := by
  simp only [current, List.reverse_concat, List.findSome?_append, List.findSome?_cons,
    List.findSome?_nil]
  cases call.declared? name <;> cases call.offered? name <;> simp

end ArgumentCall

open ArgumentCall

namespace CachedDescriptor

/-! ## One call -/

/-- Taking over arguments is the same with a cell and without. -/
theorem descriptor_importArguments (cached : CachedDescriptor W O C T)
    (arguments : List ArgumentDef) :
    (cached.importArguments arguments).descriptor
      = cached.descriptor.importArguments arguments := by
  induction arguments generalizing cached with
  | nil => rfl
  | cons first rest ih =>
    rw [importArguments, List.foldl_cons, ← importArguments, ih]
    simp only [Descriptor.importArguments, List.foldl_cons]
    split <;> rfl

/-- Taking over a field's definition is the same with a cell and without, the refusals included. -/
theorem map_importDefinition (cached : CachedDescriptor W O C T) (field : FieldDef) (world : W) :
    (cached.importDefinition field world).map (Except.map descriptor) id
      = cached.descriptor.importDefinition field world := by
  unfold importDefinition Descriptor.importDefinition
  cases cached.descriptor.setName field.name with
  | error error => rfl
  | ok named =>
    dsimp only
    obtain ⟨error | type, cell, world⟩ := named.returnType.bind field.type world
    · rfl
    · exact congrArg (fun taken => (Except.ok taken, world)) (descriptor_importArguments _ _)

/-- Reading the defaults fills the cache and leaves the descriptor alone. -/
theorem descriptor_defaultArguments (cached : CachedDescriptor W O C T) :
    cached.defaultArguments.2.descriptor = cached.descriptor := by
  unfold defaultArguments
  cases cached.defaults? <;> rfl

/-- What the cell does is not seen in the descriptor. -/
theorem descriptor_run (call : ArgumentCall W O C T) (cached : CachedDescriptor W O C T) :
    (call.run cached).descriptor = call.plain cached.descriptor := by
  cases call with
  | declare | update => rfl
  | imports arguments => exact descriptor_importArguments cached arguments
  | defaults | coerce => exact descriptor_defaultArguments cached

/-- The cell is empty, or holds what it would be filled with now. -/
def Coherent (cached : CachedDescriptor W O C T) : Prop :=
  ∀ defaults, cached.defaults? = some defaults → defaults = cached.descriptor.defaultArguments

/-- The cell and the declarations are those of a history. -/
structure UpToDate (calls : List (ArgumentCall W O C T)) (cached : CachedDescriptor W O C T) :
    Prop where
  cell : cached.Coherent
  keys : cached.descriptor.arguments.map Prod.fst = (calls.flatMap names).eraseDups
  lookup : ∀ name, cached.descriptor.arguments.lookup name = current calls name

section
variable {cached : CachedDescriptor W O C T} {calls : List (ArgumentCall W O C T)}

/-- A read answers what the declarations say. -/
theorem Coherent.defaultArguments (h : cached.Coherent) :
    cached.defaultArguments.1 = cached.descriptor.defaultArguments ∧
      cached.defaultArguments.2.Coherent := by
  unfold CachedDescriptor.defaultArguments
  cases hcell : cached.defaults? with
  | some defaults => exact ⟨h defaults hcell, h⟩
  | none =>
    refine ⟨rfl, fun defaults hd => ?_⟩
    cases hd
    rfl

/-- Importing arguments clears the cache, so the cache is not out of date afterwards. -/
theorem Coherent.importArguments (h : cached.Coherent) (arguments : List ArgumentDef) :
    (cached.importArguments arguments).Coherent := by
  induction arguments generalizing cached with
  | nil => exact h
  | cons first rest ih =>
    rw [CachedDescriptor.importArguments, List.foldl_cons, ← CachedDescriptor.importArguments]
    refine ih ?_
    split
    · exact h
    · exact fun _ hd => nomatch hd

/-- No call leaves defaults in the cache that the declarations no longer give. -/
theorem Coherent.run (h : cached.Coherent) (call : ArgumentCall W O C T) :
    (call.run cached).Coherent := by
  cases call with
  | declare name declaration => exact fun _ hd => nomatch hd
  | imports arguments => exact h.importArguments arguments
  | update change keeps =>
    intro defaults hd
    rw [h defaults hd, Descriptor.defaultArguments, Descriptor.defaultArguments]
    exact congrArg _ (keeps cached.descriptor).symm
  | defaults | coerce => exact h.defaultArguments.2

/-- After one more call the declarations are those of the history with that call. -/
theorem UpToDate.run (h : cached.UpToDate calls) (call : ArgumentCall W O C T) :
    (call.run cached).UpToDate (calls ++ [call]) := by
  refine ⟨h.cell.run call, ?_, fun name => ?_⟩
  · rw [descriptor_run, names_concat]
    cases call with
    | declare name declaration => exact Entries.keys_put h.keys name declaration
    | imports arguments => exact Descriptor.keys_importArguments h.keys arguments
    | update change keeps => simpa [plain, names, keeps] using h.keys
    | defaults | coerce => simpa [plain, names] using h.keys
  · rw [descriptor_run, current_concat]
    cases call with
    | declare other declaration =>
      by_cases hname : other = name
      · subst hname
        simp [plain, Descriptor.declareArgument, declared?, Entries.lookup_put_self]
      · simp [plain, Descriptor.declareArgument, declared?, offered?, hname,
          Entries.lookup_put_of_ne (Ne.symm hname), h.lookup]
    | imports arguments =>
      simp [plain, declared?, offered?, Descriptor.lookup_importArguments, h.lookup]
    | update change keeps => simp [plain, declared?, offered?, keeps, h.lookup]
    | defaults | coerce => simp [plain, declared?, offered?, h.lookup]

/-- What a descriptor with distinct arguments answers are the defaults of its history. -/
theorem UpToDate.defaultArguments (h : cached.UpToDate calls) :
    cached.descriptor.defaultArguments = currentDefaults calls := by
  have hnodup : (cached.descriptor.arguments.map Prod.fst).Nodup := by
    rw [h.keys]
    exact nodup_eraseDups _
  calc cached.descriptor.defaultArguments
      = Entries.mapValues? ArgumentDeclaration.default? cached.descriptor.arguments := rfl
    _ = currentDefaults calls := by
      rw [Entries.mapValues?_eq hnodup, h.keys]
      simp only [h.lookup]
      rfl

/-- A field's definition that is taken over counts as its arguments. -/
theorem importDefinition_eq_ok {field : FieldDef} {world world' : W}
    {after : CachedDescriptor W O C T}
    (h : cached.importDefinition field world = (.ok after, world')) :
    ∃ change keeps, after = runAll [.update change keeps, .imports field.arguments] cached := by
  unfold importDefinition at h
  split at h
  · cases h
  · rename_i named hnamed
    split at h
    · cases h
    · rename_i cell _ _
      have hname : named = { cached.descriptor with name := named.name } := by
        unfold Descriptor.setName at hnamed
        split at hnamed
        · cases hnamed
          rfl
        · split at hnamed <;> cases hnamed
          rfl
      refine ⟨fun descriptor => { descriptor with name := named.name, returnType := cell },
        fun _ => rfl, ?_⟩
      cases h
      rw [hname]
      rfl

end

/-! ## Whole histories -/

/-- Every history that starts from a fresh descriptor leaves the declarations its calls made. -/
theorem upToDate_runAll (name : Option String) (calls : List (ArgumentCall W O C T)) :
    (runAll calls { descriptor := { name } }).UpToDate calls := by
  induction calls using List.reverseRecOn with
  | nil => exact ⟨fun _ hd => (nomatch hd), rfl, fun _ => rfl⟩
  | append_singleton calls call ih =>
    rw [runAll_concat]
    exact ih.run call

/-- After any history that starts with a fresh descriptor, the defaults are read as those of the
arguments declared by then, in the order in which they were first declared. The arguments of a
selection begin with the defaults in that order, the literals that have a value overwrite them in
place, and the other literals come after them in the order of the selection. A field's definition
that is taken over as a whole is one more such history. -/
theorem defaultArguments_runAll (name : Option String) (calls : List (ArgumentCall W O C T)) :
    let reached := runAll calls { descriptor := { name } }
    reached.defaultArguments.1 = currentDefaults calls ∧
    (∀ literals vars,
      let values := Entries.mapValues? (Literal.toJson? vars) literals
      let coerced := (reached.coerceArguments literals vars).1
      coerced.map Prod.fst
          = ((currentDefaults calls).map Prod.fst ++ values.map Prod.fst).eraseDups ∧
        (∀ argument, coerced.lookup argument
          = (values.reverse.lookup argument).or ((currentDefaults calls).lookup argument)) ∧
        coerced = reached.descriptor.coerceArguments literals vars) ∧
    ∀ field world after world', reached.importDefinition field world = (.ok after, world') →
      ∃ change keeps, after
        = runAll (calls ++ [.update change keeps, .imports field.arguments])
          { descriptor := { name } } := by
  intro reached
  have hreached : reached.UpToDate calls := upToDate_runAll name calls
  have hread : reached.defaultArguments.1 = currentDefaults calls :=
    hreached.cell.defaultArguments.1.trans hreached.defaultArguments
  have hnodup : ((currentDefaults calls).map Prod.fst).Nodup := by
    rw [← hreached.defaultArguments]
    refine List.Nodup.sublist (Entries.keys_mapValues?_sublist _ _) ?_
    rw [hreached.keys]
    exact nodup_eraseDups _
  refine ⟨hread, fun literals vars => ?_, fun field world after world' h => ?_⟩
  · intro values coerced
    have hcoerced : coerced = Entries.putAll values (currentDefaults calls) := by
      rw [← hread]
      exact Descriptor.overlay_eq_putAll _ literals vars
    refine ⟨?_, fun argument => ?_, ?_⟩
    · rw [hcoerced, Entries.keys_putAll (eraseDups_eq_self hnodup).symm]
    · rw [hcoerced, Entries.lookup_putAll]
    · rw [Descriptor.coerceArguments, Descriptor.overlay_eq_putAll, hreached.defaultArguments,
        hcoerced]
  · obtain ⟨change, keeps, rfl⟩ := importDefinition_eq_ok h
    exact ⟨change, keeps, List.foldl_append.symm⟩

end CachedDescriptor

end QueryEngine
