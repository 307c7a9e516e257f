import QueryEngine.Proofs.Execution.Blind

/-!
# States that differ in their worlds only

Where nothing the engine asks for can tell worlds apart that are alike, resolving and completing
take states that differ only in such worlds to states that do (`Twins.resolveQueued`,
`Twins.applyAll`). What an execution still has to do is of its tree all the while.
-/

namespace QueryEngine.Execution

variable {W O C T : Type}

/-- The field is one of the tree. -/
structure Invocation.Within (like : W → W → Prop) (root : Node (Definition W O C T))
    (invocation : Invocation W O C T) : Prop where
  node : Node.Within root invocation.node
  blind : invocation.descriptor.Blind like

/-- The states differ only in worlds that are alike, and what is left to do is of the tree. -/
structure Twins (like : W → W → Prop) (root : Node (Definition W O C T)) (s t : State W O C T) :
    Prop where
  frontier : ∀ frame ∈ s.frontier, Node.Within root frame.node ∧ frame.source.Blind like
  pending : ∀ pending ∈ s.pending, pending.invocation.Within like root
  eq : { s with world := t.world } = t
  like : like s.world t.world

section
variable {like : W → W → Prop} {setting : Setting W O C T} {root : Node (Definition W O C T)}
  {s t : State W O C T}

/-! ## Changes of states -/

namespace Twins

/-- Twins stay twins in any other two worlds that are alike. -/
theorem withWorld (h : Twins like root s t) {v w : W} (hl : like v w) :
    Twins like root { s with world := v } { t with world := w } := by
  refine ⟨h.frontier, h.pending, ?_, hl⟩
  rw [← h.eq]

/-- The first of two twins is a twin of itself, if its world is like itself. -/
theorem left (h : Twins like root s t) (hl : like s.world s.world) : Twins like root s s :=
  ⟨h.frontier, h.pending, rfl, hl⟩

/-- The tasks that wait may be forgotten. -/
theorem cleared (h : Twins like root s t) :
    Twins like root { s with pending := [] } { t with pending := [] } := by
  refine ⟨h.frontier, ?_, ?_, h.like⟩
  · intro pending hm
    cases hm
  · rw [← h.eq]

/-- Writing a slot fails for both twins or leaves twins. -/
theorem write? (h : Twins like root s t) (path : Path) (value : Json) :
    s.write? path value = none ∧ t.write? path value = none
      ∨ ∃ s' t', s.write? path value = some s' ∧ t.write? path value = some t'
        ∧ Twins like root s' t' := by
  have hdata : t.data = s.data := by rw [← h.eq]
  simp only [State.write?, hdata]
  cases s.data.setAt? path value with
  | none => exact .inl ⟨rfl, rfl⟩
  | some data =>
    refine .inr ⟨_, _, rfl, rfl, h.frontier, h.pending, ?_, h.like⟩
    rw [← h.eq]

/-- Writing leaves twins. -/
theorem write (h : Twins like root s t) (path : Path) (value : Json) :
    Twins like root (s.write path value) (t.write path value) := by
  rcases h.write? path value with ⟨hs, ht⟩ | ⟨s', t', hs, ht, h'⟩
  · rw [State.write, State.write, hs, ht]
    exact h
  · rw [State.write, State.write, hs, ht]
    exact h'

/-- Reporting an error leaves twins. -/
theorem report (h : Twins like root s t) (path : Path) (error : FieldError) (code : String) :
    Twins like root (s.report path error code) (t.report path error code) := by
  refine ⟨h.frontier, h.pending, ?_, h.like⟩
  rw [← h.eq]
  rfl

/-- Rejecting a value leaves twins. -/
theorem reject (h : Twins like root s t) (path : Path) (message : String) :
    Twins like root (s.reject path message) (t.reject path message) :=
  (h.write path .null).report path _ _

/-- Writing a null leaves twins. -/
theorem writeNull (h : Twins like root s t) (path : Path) (type : TypeRef) :
    Twins like root (s.writeNull path type) (t.writeNull path type) := by
  simp only [State.writeNull]
  split
  · exact (h.write path .null).report path _ _
  · exact h.write path .null

/-- Queueing a task of the tree leaves twins. -/
theorem enqueue (h : Twins like root s t) {pending : Pending W O C T}
    (hp : pending.invocation.Within like root) :
    Twins like root (s.enqueue pending) (t.enqueue pending) := by
  refine ⟨h.frontier, ?_, ?_, h.like⟩
  · intro other ho
    rcases List.mem_append.1 ho with ho | ho
    · exact h.pending other ho
    · exact List.mem_singleton.1 ho ▸ hp
  · rw [← h.eq]
    rfl

/-- Queueing an object of the tree leaves twins. -/
theorem push (h : Twins like root s t) {frame : Frame W O C T}
    (hf : Node.Within root frame.node ∧ frame.source.Blind like) :
    Twins like root (s.push frame) (t.push frame) := by
  refine ⟨?_, h.pending, ?_, h.like⟩
  · intro other ho
    rcases List.mem_append.1 ho with ho | ho
    · exact h.frontier other ho
    · exact List.mem_singleton.1 ho ▸ hf
  · rw [← h.eq]
    rfl

/-- Steps that leave twins leave twins when taken in a row. -/
theorem foldl {α : Type} {step : State W O C T → α → State W O C T} (values : List α)
    (hstep : ∀ value ∈ values, ∀ {s t : State W O C T}, Twins like root s t →
      Twins like root (step s value) (step t value))
    (h : Twins like root s t) :
    Twins like root (values.foldl step s) (values.foldl step t) := by
  induction values generalizing s t with
  | nil => exact h
  | cons value rest ih =>
    refine ih (fun other ho => hstep other (List.mem_cons_of_mem _ ho)) ?_
    exact hstep value (List.mem_cons_self ..) h

section
variable {invocation : Invocation W O C T} (hi : invocation.Within like root)
include hi

/-- Completing an object leaves twins. -/
theorem completeObject (h : Twins like root s t) (type : TypeRef) (path : Path)
    {source : Source W O C} (hs : source.Blind like) :
    Twins like root (completeObject setting invocation type path source s)
      (completeObject setting invocation type path source t) := by
  simp only [Execution.completeObject]
  split
  · exact h.reject ..
  · split
    · exact h.reject ..
    · rcases h.write? path (.object []) with ⟨hs, ht⟩ | ⟨s', t', hs', ht', h'⟩
      · simpa only [hs, ht] using h
      · simpa only [hs', ht'] using h'.push ⟨hi.node, hs⟩

variable (hb : BlindTo like setting root)
include hb

/-- Completing a single value leaves twins. -/
theorem completeSingle (h : Twins like root s t) (type : TypeRef) (path : Path)
    (value : FieldValue O C T) :
    Twins like root (completeSingle setting invocation type path value s)
      (completeSingle setting invocation type path value t) := by
  cases value with
  | lazy task => exact h.enqueue hi
  | list items => exact h.reject ..
  | deferred marker =>
    simp only [Execution.completeSingle]
    split
    · exact h.report ..
    · rename_i resolver hr
      obtain ⟨he, hl⟩ := hb.lazyResolver hi.blind hr invocation.arguments _ _ h.like
      rw [he]
      exact (h.withWorld hl).enqueue hi
  | object object =>
    simp only [Execution.completeSingle]
    split
    · exact h.completeObject hi type path trivial
    · exact h.reject ..
  | collection collection =>
    simp only [Execution.completeSingle]
    split
    · rename_i hc
      exact h.completeObject hi type path (blind_connection hi.blind hc)
    · exact h.reject ..
  | value json =>
    cases json with
    | null => exact h.writeNull ..
    | bool | number | string => exact h.write ..
    | array items =>
      simp only [Execution.completeSingle]
      split
      · rename_i hc
        exact h.completeObject hi type path (blind_connection hi.blind hc)
      · exact h.write ..
    | object fields =>
      simp only [Execution.completeSingle]
      split
      · exact h.completeObject hi type path trivial
      · exact h.write ..

/-- Completing a value does not tell worlds apart. -/
theorem complete (h : Twins like root s t) (type : TypeRef) (path : Path)
    (value : FieldValue O C T) :
    Twins like root (complete setting invocation type path value s)
      (complete setting invocation type path value t) := by
  induction type generalizing path value s t with
  | named name | nonNullNamed name => exact h.completeSingle hi hb ..
  | list item ih | nonNullList item ih =>
    simp only [Execution.complete]
    cases listItems? setting.host value with
    | none => exact h.completeSingle hi hb ..
    | some items =>
      rcases h.write? path (.array (List.replicate items.length .null))
        with ⟨hs, ht⟩ | ⟨s', t', hs, ht, h'⟩
      · simpa only [hs, ht] using h
      · simp only [hs, ht]
        exact h'.foldl _ fun item _ _ _ h => ih h ..

end

end Twins

/-! ## Objects and outcomes -/

section
variable (hb : BlindTo like setting root)
include hb

/-- Resolving a field comes to the same in worlds that are alike, and leaves worlds that are. -/
theorem meet_resolveField {frame : Frame W O C T} (hf : frame.source.Blind like)
    {descriptor : Descriptor W O C T} (hd : descriptor.Blind like) (arguments : Fields)
    (known : Option (Page O)) {v w : W} (hl : like v w) :
    Meet like (resolveField setting frame descriptor arguments known v)
      (resolveField setting frame descriptor arguments known w) := by
  have haction : (descriptor.resolve setting.host frame.source arguments).Blind like :=
    Descriptor.blind_resolve hb.host hd hf
  simp only [resolveField]
  generalize frame.source = source at hf haction ⊢
  cases source with
  | connection connection =>
    exact (haction v w hl).runWith (Connection.blind_paginate hf) known
  | object object =>
    obtain ⟨he, hl'⟩ := haction.run v w hl
    exact ⟨he, rfl, hl'⟩

omit hb in
/-- Whether an error fails the whole object comes to the same in worlds that are alike. -/
theorem meet_failsFrame {frame : Frame W O C T} (hf : frame.source.Blind like) (error : FieldError)
    (known : Option (Page O)) {v w : W} (hl : like v w) :
    Meet like (failsFrame setting frame error known v)
      (failsFrame setting frame error known w) := by
  simp only [failsFrame]
  generalize frame.source = source at hf ⊢
  cases source with
  | object object => exact ⟨rfl, rfl, hl⟩
  | connection connection =>
    simp only
    split
    · exact ⟨rfl, rfl, hl⟩
    · have hpage : QueryEngine.Blind like (connection.paginate setting.host) :=
        Connection.blind_paginate hf
      obtain ⟨he, hk, hl'⟩ := (Action.blind_page v w hl).runWith hpage known
      simp only [Action.runWith, he, hk]
      exact ⟨rfl, rfl, hl'⟩

namespace Twins

/-- Resolving fields of the tree leaves twins. -/
theorem resolveFields {frame : Frame W O C T} (hf : frame.source.Blind like)
    {children : List (Node (Definition W O C T))}
    (hc : ∀ child ∈ children, Node.Within root child) (known : Option (Page O))
    (h : Twins like root s t) :
    Twins like root (resolveFields setting frame children known s)
      (resolveFields setting frame children known t) := by
  induction children generalizing known s t with
  | nil => exact h
  | cons child rest ih =>
    have ih := fun {s t : State W O C T} (known : Option (Page O)) (h : Twins like root s t) =>
      ih (fun other ho => hc other (List.mem_cons_of_mem _ ho)) known h
    have hin := hc child (List.mem_cons_self ..)
    simp only [Execution.resolveFields]
    split
    · exact ih known (h.write ..)
    · split
      · exact ih known (h.report ..)
      · rename_i definition hdef
        have hd := hb.descriptors child hin definition (List.mem_of_mem_head? hdef)
        obtain ⟨he, hk, hl⟩ := meet_resolveField hb hf hd
          (definition.descriptor.coerceArguments child.arguments setting.vars) known h.like
        generalize resolveField setting frame definition.descriptor _ known s.world = a
          at he hk hl ⊢
        generalize resolveField setting frame definition.descriptor _ known t.world = b
          at he hk hl ⊢
        obtain ⟨outcome, known', v⟩ := a
        obtain ⟨_, _, w⟩ := b
        cases he
        cases hk
        have h' := h.withWorld hl
        cases outcome with
        | ok value => exact ih known' (h'.complete ⟨hin, hd⟩ hb ..)
        | error error =>
          have hfails : Meet like (failsFrame setting frame error known' v) _ :=
            meet_failsFrame hf error known' hl
          obtain ⟨he, hk, hl⟩ := hfails
          simp only
          generalize failsFrame setting frame error known' v = a at he hk hl ⊢
          generalize failsFrame setting frame error known' w = b at he hk hl ⊢
          obtain ⟨fails, known'', v'⟩ := a
          obtain ⟨_, _, w'⟩ := b
          cases he
          cases hk
          have h'' := h'.withWorld hl
          simp only
          split
          · exact (h''.write ..).report ..
          · exact ih known'' (h''.report ..)

/-- Resolving an object does not tell worlds apart. -/
theorem resolveFrame {frame : Frame W O C T} (hin : Node.Within root frame.node)
    (hf : frame.source.Blind like) (h : Twins like root s t) :
    Twins like root (resolveFrame setting frame s) (resolveFrame setting frame t) := by
  have hdata : t.data = s.data := by rw [← h.eq]
  simp only [Execution.resolveFrame, hdata]
  split
  · exact h
  · rename_i children hs
    split
    · refine resolveFields hb hf ?_ none (h.write ..)
      intro child hc
      exact hin.child (Node.isChild_of_mem hs (List.mem_filter.1 hc).1)
    · exact h

/-- Resolving all objects that are queued does not tell worlds apart. -/
theorem resolveQueued (levels : Nat) (h : Twins like root s t) :
    Twins like root (resolveQueued setting levels s) (resolveQueued setting levels t) := by
  induction levels generalizing s t with
  | zero => exact h
  | succ levels ih =>
    have hfrontier : t.frontier = s.frontier := by rw [← h.eq]
    simp only [Execution.resolveQueued, hfrontier]
    split
    · exact h
    · refine ih ?_
      have hcleared : Twins like root { s with frontier := [] } { t with frontier := [] } := by
        refine ⟨?_, h.pending, ?_, h.like⟩
        · intro frame hm
          cases hm
        · rw [← h.eq]
      refine hcleared.foldl _ ?_
      intro frame hm s t h'
      obtain ⟨hin, hf⟩ := h.frontier frame hm
      exact h'.resolveFrame hb hin hf

/-- Putting an outcome in its slot leaves twins. -/
theorem apply (h : Twins like root s t) {pending : Pending W O C T}
    (hp : pending.invocation.Within like root) (outcome : Outcome O C T) :
    Twins like root (apply setting s pending outcome) (apply setting t pending outcome) := by
  have hdata : t.data = s.data := by rw [← h.eq]
  simp only [Execution.apply, hdata]
  split
  · exact h
  · cases outcome with
    | ok value => exact h.complete hp hb ..
    | error error => exact h.report ..

/-- Applying the outcomes of a batch does not tell worlds apart. -/
theorem applyAll {pending : List (Pending W O C T)}
    (hp : ∀ one ∈ pending, one.invocation.Within like root) (outcomes : List (Outcome O C T))
    (h : Twins like root s t) :
    Twins like root (applyAll setting pending outcomes s)
      (applyAll setting pending outcomes t) := by
  induction pending generalizing outcomes s t with
  | nil => exact h
  | cons first rest ih =>
    cases outcomes with
    | nil => exact h
    | cons outcome outcomes =>
      refine ih (fun one ho => hp one (List.mem_cons_of_mem _ ho)) outcomes ?_
      exact h.apply hb (hp first (List.mem_cons_self ..)) outcome

end Twins

end

end

end QueryEngine.Execution
