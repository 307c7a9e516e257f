import QueryEngine.Proofs.Execution.Course
import QueryEngine.Proofs.Language.Names
import QueryEngine.Proofs.Selection.Keys

/-!
# Where errors can lie

The slots that an execution marks are made step by step: an object adds the keys of its fields, a
list the positions of its items (`Work.path_of_mem_marks`). So the keys of the paths of errors are
keys of the selection tree (`Reaches.keysSatisfy`), those of a document that is read from a text are
names, and such a path can be told from its text (`Path.survivesPrinting`).
-/

namespace QueryEngine

namespace Path

/-- All keys of the path have the property. -/
def KeysSatisfy (P : String → Prop) (path : Path) : Prop :=
  ∀ name, .key name ∈ path → P name

variable {P : String → Prop} {path : Path}

/-- Indices bring in no keys. -/
theorem KeysSatisfy.append_indices (h : path.KeysSatisfy P) (indices : List Nat) :
    KeysSatisfy P (path ++ indices.map .index) := by
  intro name hm
  rcases List.mem_append.1 hm with hm | hm
  · exact h name hm
  · obtain ⟨_, -, he⟩ := List.mem_map.1 hm
    cases he

/-- One more good key leaves a path of good keys one of good keys. -/
theorem KeysSatisfy.append_key (h : path.KeysSatisfy P) {key : String} (hk : P key) :
    KeysSatisfy P (path ++ [.key key]) := by
  intro name hm
  rcases List.mem_append.1 hm with hm | hm
  · exact h name hm
  · cases List.mem_singleton.1 hm
    exact hk

end Path

namespace Execution

open Moment

variable {W O C T : Type} {setting : Setting W O C T}

/-! ## Pieces -/

namespace Piece

/-- What one value leaves marks no slot but that of the value. -/
theorem Single.path_of_mem_marks {invocation : Invocation W O C T} {type : TypeRef} {path : Path}
    {value : FieldValue O C T} {piece : Piece W O C T}
    (h : piece.Single setting invocation type path value) {mark : Mark} (hm : mark ∈ piece.marks) :
    mark.1 = path := by
  cases h with
  | leaf => cases hm
  | failed | waiting | object => cases List.mem_singleton.1 hm; rfl

/-- What the value of a field leaves marks the slot of the field, or those of items of lists in
it. -/
theorem path_of_mem_marks_ofValue {invocation : Invocation W O C T} {type : TypeRef} {path : Path}
    {value : FieldValue O C T} {world : W} {mark : Mark}
    (hm : mark ∈ (ofValue setting invocation type path value world).1.marks) :
    ∃ indices : List Nat, mark.1 = path ++ indices.map .index := by
  induction type generalizing path value world with
  | named name | nonNullNamed name =>
    exact ⟨[], by simpa using (single_ofSingle ..).path_of_mem_marks hm⟩
  | list item ih | nonNullList item ih =>
    simp only [ofValue] at hm
    cases hl : listItems? setting.host value with
    | none =>
      rw [hl] at hm
      exact ⟨[], by simpa using (single_ofSingle ..).path_of_mem_marks hm⟩
    | some items =>
      rw [hl] at hm
      obtain ⟨part, hp, hm⟩ := mem_marks_gather hm
      obtain ⟨⟨item, index⟩, -, world, rfl⟩ := mem_each hp
      obtain ⟨indices, he⟩ := ih hm
      exact ⟨index :: indices, by simp [he]⟩

/-- An outcome marks the slot of its task and slots of the items in it, and no field below. -/
theorem path_of_mem_marks_ofOutcome {pending : Pending W O C T} {outcome : Outcome O C T}
    {world : W} {mark : Mark} (hm : mark ∈ (ofOutcome setting pending outcome world).1.marks) :
    ∃ indices : List Nat, mark.1 = pending.path ++ indices.map .index := by
  cases outcome with
  | ok value => exact path_of_mem_marks_ofValue hm
  | error error =>
    cases List.mem_singleton.1 hm
    exact ⟨[], by simp⟩

section
variable {frame : Frame W O C T}

/-- What a field of an object leaves marks the slot of the field, or those of items in it. -/
theorem path_of_mem_marks_fieldPart {child : Node (Definition W O C T)} {known : Option (Page O)}
    {world : W} {piece : Piece W O C T} {rest : Option (Page O) × W}
    (h : fieldPart setting frame child known world = (.ok piece, rest)) {mark : Mark}
    (hm : mark ∈ piece.marks) :
    ∃ indices : List Nat, mark.1 = frame.path ++ .key child.key :: indices.map .index := by
  have hfailed : ∀ {error : FieldError} {code : String},
      mark ∈ (failed (frame.path ++ [.key child.key]) error code : Piece W O C T).marks →
        ∃ indices : List Nat, mark.1 = frame.path ++ .key child.key :: indices.map .index := by
    intro error code hm
    cases List.mem_singleton.1 hm
    exact ⟨[], rfl⟩
  revert h
  simp only [fieldPart]
  split
  · rintro ⟨⟩
    cases hm
  · split
    · rintro ⟨⟩
      exact hfailed hm
    · split
      · rintro ⟨⟩
        obtain ⟨indices, he⟩ := path_of_mem_marks_ofValue hm
        exact ⟨indices, by simpa using he⟩
      · split
        · rintro ⟨⟩
        · rintro ⟨⟩
          exact hfailed hm

/-- What an object leaves marks slots of its fields, or its own if a field fails it. -/
theorem path_of_mem_marks_ofFrame {world : W} {mark : Mark}
    (hm : mark ∈ (ofFrame setting frame world).1.marks) :
    mark.1 = frame.path ∨ ∃ child ∈ included setting frame, ∃ indices : List Nat,
      mark.1 = frame.path ++ .key child.key :: indices.map .index := by
  have hfields : mark ∈ (gather .object
      (fieldParts setting frame (included setting frame) none world).1).marks →
      ∃ child ∈ included setting frame, ∃ indices : List Nat,
        mark.1 = frame.path ++ .key child.key :: indices.map .index := by
    intro hm
    obtain ⟨part, hp, hm⟩ := mem_marks_gather hm
    obtain ⟨child, hc, -, _, _, _, hf⟩ := exists_fieldPart_of_mem hp
    exact ⟨child, hc, path_of_mem_marks_fieldPart hf hm⟩
  simp only [ofFrame] at hm
  cases hfailure : (fieldParts setting frame (included setting frame) none world).2.1 with
  | none =>
    rw [hfailure] at hm
    exact .inr (hfields hm)
  | some error =>
    rw [hfailure] at hm
    rcases List.mem_cons.1 ((marks_close_some ..).mem_iff.1 hm) with rfl | hm
    · exact .inl rfl
    · exact .inr (hfields hm)

end

end Piece

/-! ## Moments -/

/-- Work marks its own slot, or slots of the fields of an object, and those of items in them. -/
theorem Work.path_of_mem_marks {work : Work W O C T} {world : W} {mark : Mark}
    (hm : mark ∈ (work.piece setting world).1.marks) :
    (∃ indices : List Nat, mark.1 = work.path ++ indices.map .index)
      ∨ ∃ frame, work = .object frame ∧ ∃ child ∈ Piece.included setting frame,
        ∃ indices : List Nat, mark.1 = work.path ++ .key child.key :: indices.map .index := by
  cases work with
  | object frame =>
    rcases Piece.path_of_mem_marks_ofFrame hm with he | ⟨child, hc, he⟩
    · exact .inl ⟨[], by simpa [Work.path] using he⟩
    · exact .inr ⟨frame, rfl, child, hc, he⟩
  | task pending =>
    cases List.mem_singleton.1 hm
    exact .inl ⟨[], by simp [Work.path, Pending.mark]⟩
  | outcome pending result => exact .inl (Piece.path_of_mem_marks_ofOutcome hm)

section
variable {tree : SelectionTree (Definition W O C T)} {root : O} {world : W}
  {past : List (Moment W O C T)} {m next : Moment W O C T} {P : String → Prop}

/-- The fields of an object that are resolved are nodes below that of the object. -/
theorem isChild_of_mem_included {frame : Frame W O C T} {child : Node (Definition W O C T)}
    (h : child ∈ Piece.included setting frame) : frame.node.IsChild child := by
  obtain ⟨hm, -⟩ := List.mem_filter.1 h
  cases hs : frame.node.children? frame.concrete with
  | none => simp [hs] at hm
  | some children => exact Node.isChild_of_mem hs (by simpa [hs] using hm)

/-- If the marks have only keys of the tree, then after the next move as well. -/
theorem Effect.keysSatisfy (hp : tree.root.KeysSatisfy P) (hs : Sound setting tree.root past m)
    (hm : ∀ mark ∈ m.marks, mark.1.KeysSatisfy P) (he : Effect setting m next) :
    ∀ mark ∈ next.marks, mark.1.KeysSatisfy P := by
  cases he with
  | skip hn hd =>
    exact fun mark h => hm mark ((marks_next hn).mem_iff.2 (List.mem_cons_of_mem _ h))
  | @graft work rest hn hd =>
    intro mark h
    have hleft : ∀ mark ∈ work.mark :: rest.marks, mark.1.KeysSatisfy P :=
      fun mark h => hm mark ((marks_next hn).mem_iff.2 h)
    rcases List.mem_append.1 ((marks_graft ..).mem_iff.1 h) with h | h
    · have hwork : work.path.KeysSatisfy P := by
        simpa using hleft work.mark (List.mem_cons_self ..)
      rcases Work.path_of_mem_marks h with ⟨indices, he⟩ | ⟨frame, rfl, child, hc, indices, he⟩
      · exact he ▸ hwork.append_indices indices
      · have hkey : P child.key :=
          hp frame.node (hs.within _ (mem_works_next hn)) child (isChild_of_mem_included hc)
        rw [he, ← List.singleton_append, ← List.append_assoc]
        exact (hwork.append_key hkey).append_indices indices
    · exact hleft mark (List.mem_cons_of_mem _ h)
  | @drain fuel outcomes after hn hpending hstop hd =>
    have hworks := map_works_drained (f := Work.mark) (fun _ _ => rfl) hn (length_outcomes hd) after
    have hsame : (m.drained outcomes after).marks = m.marks := by
      rw [marks, hworks]
      rfl
    rwa [hsame]

/-- What is marked at any moment of an execution has only keys of the tree in its path. -/
theorem Reaches.keysSatisfy (hk : tree.root.KeysDistinct) (hp : tree.root.KeysSatisfy P)
    (h : Reaches setting (.start root tree world) past m) :
    ∀ mark ∈ m.marks, mark.1.KeysSatisfy P := by
  induction h with
  | start =>
    intro mark hm
    have hm : mark ∈ [(([], .object []) : Mark)] := hm
    rw [List.mem_singleton.1 hm]
    exact fun _ h => nomatch h
  | move hr hm ih =>
    have hsound := hr.sound hk
    exact Effect.keysSatisfy hp hsound ih (hsound.effect hk hm)

/-- The errors of a response lie in slots whose keys are those of the tree. -/
theorem keysSatisfy_of_execute (hk : tree.root.KeysDistinct) (hp : tree.root.KeysSatisfy P)
    {fuel : Nat} {answer : Response} {after : W}
    (h : execute setting tree root fuel world = some (answer, after)) {error : ResponseError}
    (he : error ∈ answer.errors) {path : Path} (hpath : error.path = some path) :
    path.KeysSatisfy P := by
  obtain ⟨past, last, hr, -, stop, herrors, -⟩ := execute_eq_some hk h
  rw [herrors] at he
  rcases List.mem_append.1 he with he | he
  · refine hr.keysSatisfy hk hp (path, .null) (List.mem_append_left _ ?_)
    exact List.mem_filterMap.2 ⟨error, he, by rw [hpath]; rfl⟩
  · -- The error that ended the execution belongs to no field.
    cases stop with
    | none => cases he
    | some stop =>
      rw [List.mem_singleton.1 he] at hpath
      cases hpath

/-- The same for the response of a request, whatever the operation: a request that is refused has no
errors of fields. -/
theorem keysSatisfy_of_executeRequest {document : Document}
    (hd : document.AllFields fun field => P field.key) {name : Option String} {fuel : Nat}
    {answer : Response} {after : W}
    (h : executeRequest setting document name root fuel world = some (answer, after))
    {error : ResponseError} (he : error ∈ answer.errors) {path : Path}
    (hpath : error.path = some path) : path.KeysSatisfy P := by
  unfold executeRequest at h
  split at h
  · rename_i tree htree
    exact keysSatisfy_of_execute (selectionTree_keysDistinct htree)
      (selectionTree_keysSatisfy hd htree) h he hpath
  · cases h
    rw [List.mem_singleton.1 he] at hpath
    cases hpath

end

end Execution

/-! ## Printed paths -/

/-- A path of keys that are names and indices that fit 64 bits is read back from its text, so
distinct ones have distinct texts. Whatever a document is executed on, if it was read from a text
then the errors of the response lie at such paths, as far as their indices fit 64 bits. -/
theorem Path.survivesPrinting {W O C T : Type} :
    (∀ path : Path, (∀ segment ∈ path, segment.IsPlain) → ofText path.text = path) ∧
    (∀ path other : Path, (∀ segment ∈ path, segment.IsPlain) →
      (∀ segment ∈ other, segment.IsPlain) → path ≠ other → path.text ≠ other.text) ∧
    ∀ (typing : Grammar.Typing) (roots : OperationKind → Option String) (text : String)
      (document : Document), Document.ofText? typing roots text = some document →
      ∀ (setting : Execution.Setting W O C T) (name : Option String) (root : O) (fuel : Nat)
        (world after : W) (answer : Response),
        Execution.executeRequest setting document name root fuel world = some (answer, after) →
        ∀ error ∈ answer.errors, ∀ path, error.path = some path →
          (∀ key, .key key ∈ path → IsName key) ∧
          ((∀ i, .index i ∈ path → i < Width.values 64) → ofText path.text = path) := by
  refine ⟨fun _ => ofText_text, fun path other hp ho hne ht => hne (eq_of_text_eq hp ho ht), ?_⟩
  intro typing roots text document hdocument setting name root fuel world after answer h error he
    path hpath
  have hkeys : path.KeysSatisfy IsName :=
    Execution.keysSatisfy_of_executeRequest (Document.allFields_of_ofText? hdocument) h he hpath
  refine ⟨hkeys, fun hindices => ofText_text fun segment hs => ?_⟩
  cases segment with
  | index i => exact hindices i hs
  | key name => exact hkeys name hs

/-- The null in a list lies at a path that is told from its text, and so is the document. -/
theorem Path.survivesPrinting_gap :
    let typing := Execution.gapSetting.registry.schema.typing
    let roots := Execution.gapSetting.registry.schema.root?
    Document.ofText? typing roots "\x7b names \x7d" = some Execution.gapDocument
      ∧ ∃ answer path,
        Execution.executeRequest Execution.gapSetting Execution.gapDocument none () 1 ()
            = some (answer, ())
          ∧ answer.errors.map ResponseError.path = [some path] ∧ path.text = "/names/1"
          ∧ ofText path.text = path := by
  intro typing roots
  have hchars : "\x7b names \x7d".toList = ['\x7b', ' ', 'n', 'a', 'm', 'e', 's', ' ', '\x7d'] := by
    decide
  have htokens : Token.scan? "\x7b names \x7d"
      = some [.punctuator "\x7b", .name "names", .punctuator "\x7d"] := by
    rw [Token.scan?, hchars]
    rfl
  have hdocument :
      Document.ofText? typing roots "\x7b names \x7d" = some Execution.gapDocument := by
    rw [Document.ofText?, htokens]
    rfl
  obtain ⟨answer, hrun, hpaths⟩ : ∃ answer : Response,
      Execution.executeRequest Execution.gapSetting Execution.gapDocument none () 1 ()
          = some (answer, ())
        ∧ answer.errors.map ResponseError.path = [some [.key "names", .index 1]] :=
    ⟨_, rfl, rfl⟩
  have herror : ∃ error ∈ answer.errors, error.path = some [.key "names", .index 1] :=
    List.mem_map.1 (hpaths ▸ List.mem_singleton.2 rfl)
  obtain ⟨error, he, hpath⟩ := herror
  have hkept := (survivesPrinting.2.2 typing roots _ _ hdocument Execution.gapSetting none () 1 ()
    () answer hrun error he _ hpath).2
  refine ⟨hdocument, answer, _, hrun, hpaths, by decide +kernel, hkept ?_⟩
  simp [Width.values]

end QueryEngine
