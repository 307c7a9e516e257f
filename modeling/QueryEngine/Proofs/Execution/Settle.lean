import QueryEngine.Proofs.Execution.Interpreter
import QueryEngine.Proofs.Execution.Quiet

/-!
# Settling open work

`Settles` fills the slots of open work with answers, one after the other; a slot that is gone is
left out. In which order does not matter where the slots lie apart (`Settles.perm`). Filling the
slots that the piece of some work leaves open makes its value the answer of the interpreter to that
work (`completes_piece`), and there is an answer if the open slots have answers
(`isSome_opened`).
-/

namespace QueryEngine.Execution

variable {W O C T : Type}

/-- Fills the slots of open work with answers: the data at the end, the errors of the answers, and
whether one of them has an object that a field failed. -/
inductive Settles (answers : Work W O C T → Answer → Prop) :
    Json → List (Work W O C T) → Json → List ResponseError → Bool → Prop
  | nil {data : Json} : Settles answers data [] data [] false
  | gone {data final : Json} {work : Work W O C T} {rest : List (Work W O C T)}
    {errors : List ResponseError} {nulled : Bool} :
    data.at? work.path = none → Settles answers data rest final errors nulled →
      Settles answers data (work :: rest) final errors nulled
  | fill {data final : Json} {work : Work W O C T} {rest : List (Work W O C T)}
    {errors : List ResponseError} {nulled : Bool} {a : Answer} :
    (data.at? work.path).isSome → answers work a →
      Settles answers (data.fill work.path a.value) rest final errors nulled →
      Settles answers data (work :: rest) final (a.errors ++ errors) (a.nulled || nulled)

/-- The slots that exist lie apart from all others. -/
def Loose (data : Json) (works : List (Work W O C T)) : Prop :=
  works.Pairwise fun work other =>
    (data.at? work.path).isSome ∨ (data.at? other.path).isSome → Path.Apart work.path other.path

/-- Filling the slot of work that lies apart leaves the slots of the other work apart. -/
theorem Loose.fill {data : Json} {work : Work W O C T} {rest : List (Work W O C T)}
    (h : Loose data (work :: rest)) (hw : (data.at? work.path).isSome) (value : Json) :
    Loose (data.fill work.path value) rest := by
  obtain ⟨hfirst, hrest⟩ := List.pairwise_cons.1 h
  refine hrest.imp_of_mem fun {a b} ha hb hab hlive => hab ?_
  rwa [Json.at?_fill_of_apart (hfirst a ha (.inl hw)),
    Json.at?_fill_of_apart (hfirst b hb (.inl hw))] at hlive

/-- In any order the slots lie apart. -/
theorem Loose.perm {data : Json} {works works' : List (Work W O C T)} (h : Loose data works)
    (hp : works.Perm works') : Loose data works' :=
  (hp.pairwise_iff fun {_ _} hab hlive => (hab hlive.symm).symm).1 h

/-- Work whose marks all hold is loose. -/
theorem loose_of_marks {data : Json} {works : List (Work W O C T)}
    (hn : (works.map Work.path).Nodup)
    (hm : ∀ work ∈ works, data.at? work.path = some work.mark.2
      ∧ ∀ s, work.mark.2.child? s = none) : Loose data works := by
  refine (List.pairwise_map.1 hn).imp_of_mem fun {a b} ha hb hne _ => ?_
  exact apart_of_at?_eq (hm a ha).1 (hm b hb).1 (hm a ha).2 (hm b hb).2 hne

namespace Settles

variable {answers more : Work W O C T → Answer → Prop} {data middle final : Json}
  {works works' : List (Work W O C T)} {errors errors' : List ResponseError}
  {nulled nulled' : Bool}

/-- Where more work has answers, what was settled is settled still. -/
theorem mono (hm : ∀ work a, answers work a → more work a)
    (h : Settles answers data works final errors nulled) :
    Settles more data works final errors nulled := by
  induction h with
  | nil => exact .nil
  | gone hd _ ih => exact .gone hd ih
  | fill hd ha _ ih => exact .fill hd (hm _ _ ha) ih

/-- Where nothing is open there is nothing to settle. -/
theorem of_nil (h : Settles answers data [] final errors nulled) :
    final = data ∧ errors = [] ∧ nulled = false := by
  cases h
  exact ⟨rfl, rfl, rfl⟩

/-- Settling one part of the work and then the other settles all of it. -/
theorem append (h : Settles answers data works middle errors nulled)
    (h' : Settles answers middle works' final errors' nulled') :
    Settles answers data (works ++ works') final (errors ++ errors') (nulled || nulled') := by
  induction h with
  | nil => simpa using h'
  | gone hd _ ih => exact .gone hd (ih h')
  | fill hd ha _ ih =>
    rw [List.append_assoc, Bool.or_assoc]
    exact .fill hd ha (ih h')

/-- A slot that lies apart from those that are filled keeps its value. -/
theorem at?_eq {path : Path} (h : Settles answers data works final errors nulled)
    (hap : ∀ work ∈ works, Path.Apart work.path path) : final.at? path = data.at? path := by
  induction h with
  | nil => rfl
  | gone _ _ ih => exact ih fun other ho => hap other (List.mem_cons_of_mem _ ho)
  | fill _ _ _ ih =>
    rw [ih fun other ho => hap other (List.mem_cons_of_mem _ ho),
      Json.at?_fill_of_apart (hap _ (List.mem_cons_self ..))]

/-- Slots that are gone are all left out. -/
theorem of_gone (h : ∀ work ∈ works, data.at? work.path = none) :
    Settles answers data works data [] false := by
  induction works with
  | nil => exact .nil
  | cons work rest ih =>
    exact .gone (h work (List.mem_cons_self ..))
      (ih fun other ho => h other (List.mem_cons_of_mem _ ho))

/-- Two neighbours can be settled in either order. -/
theorem swap {v w : Work W O C T} (hl : Loose data (w :: v :: works))
    (h : Settles answers data (w :: v :: works) final errors nulled) :
    ∃ errors', errors.Perm errors' ∧
      Settles answers data (v :: w :: works) final errors' nulled := by
  have hap := (List.pairwise_cons.1 hl).1 v (List.mem_cons_self ..)
  cases h with
  | gone hw h =>
    cases h with
    | gone hv h => exact ⟨_, .refl _, .gone hv (.gone hw h)⟩
    | fill hv ha h =>
      refine ⟨_, .refl _, .fill hv ha (.gone ?_ h)⟩
      rwa [Json.at?_fill_of_apart (hap (.inr hv)).symm]
  | fill hw ha h =>
    have hap := hap (.inl hw)
    cases h with
    | gone hv h =>
      rw [Json.at?_fill_of_apart hap] at hv
      exact ⟨_, .refl _, .gone hv (.fill hw ha h)⟩
    | @fill _ _ _ _ errors nulled b hv hb h =>
      rw [Json.at?_fill_of_apart hap] at hv
      rw [Json.fill_comm hap] at h
      refine ⟨_, List.perm_append_comm_assoc .., ?_⟩
      rw [Bool.or_left_comm]
      exact .fill hv hb (.fill (by rwa [Json.at?_fill_of_apart hap.symm]) ha h)

/-- Loose work can be settled in any order. -/
theorem perm (hl : Loose data works) (hp : works.Perm works')
    (h : Settles answers data works final errors nulled) :
    ∃ errors', errors.Perm errors' ∧ Settles answers data works' final errors' nulled := by
  induction hp generalizing data errors nulled with
  | nil => exact ⟨errors, .refl _, h⟩
  | cons work _ ih =>
    cases h with
    | gone hd h =>
      obtain ⟨errors', he, h⟩ := ih (List.pairwise_cons.1 hl).2 h
      exact ⟨errors', he, .gone hd h⟩
    | fill hd ha h =>
      obtain ⟨errors', he, h⟩ := ih (hl.fill hd _) h
      exact ⟨_, .append_left _ he, .fill hd ha h⟩
  | swap => exact swap hl h
  | trans hp _ ih ih' =>
    obtain ⟨errors', he, h⟩ := ih hl h
    obtain ⟨errors'', he', h⟩ := ih' (hl.perm hp) h
    exact ⟨errors'', he.trans he', h⟩

end Settles

/-! ## Errors of slots that exist -/

/-- Whether the path of the error leads to a slot of the data. -/
def leadsTo (data : Json) (error : ResponseError) : Bool :=
  error.path.any fun path => (data.at? path).isSome

/-! ## Pieces and answers -/

/-- Settling what a piece leaves open makes it the answer. The errors are those of the answer unless
an object in it is null because a field failed it, and those that lead to slots are so in any
case. -/
def Completes (answers : Work W O C T → Answer → Prop) (path : Path) (piece : Piece W O C T)
    (a : Answer) : Prop :=
  ∀ data : Json, (data.at? path).isSome → ∃ errors nulled,
    Settles answers (data.fill path piece.value) piece.works (data.fill path a.value) errors nulled
      ∧ (a.nulled = false → nulled = false ∧ (piece.errors ++ errors).Perm a.errors)
      ∧ ∀ final : Json, final.at? path = some a.value →
        ((piece.errors ++ errors).filter (leadsTo final)).Perm
          (a.errors.filter (leadsTo final))

section
variable {setting : Setting W O C T} {answers : Work W O C T → Answer → Prop} {path : Path}

/-- A piece that leaves no work open is complete. -/
theorem completes_leaf {piece : Piece W O C T} (hw : piece.works = []) :
    Completes answers path piece ⟨piece.value, piece.errors, false⟩ := by
  intro data _
  refine ⟨[], false, ?_, fun _ => ⟨rfl, by simp⟩, fun _ _ => by simp⟩
  rw [hw]
  exact .nil

/-- A piece that leaves one thing open is completed by the answer to that. -/
theorem completes_of_works {piece : Piece W O C T} {work : Work W O C T} {a : Answer}
    (hw : piece.works = [work]) (he : piece.errors = []) (hp : work.path = path)
    (ha : answers work a) : Completes answers path piece a := by
  intro data hd
  refine ⟨a.errors ++ [], a.nulled || false, ?_, fun hn => ⟨by simp [hn], by simp [he]⟩,
    fun _ _ => by simp [he]⟩
  have hs : ((data.fill path piece.value).at? work.path).isSome := by
    simp [hp, Json.at?_fill_self hd]
  rw [hw, ← Json.fill_fill_self hd piece.value a.value, ← hp]
  rw [← hp] at hs
  exact .fill hs ha .nil

/-- What a piece that is tidy leaves open is loose. -/
theorem loose_of_tidy {piece : Piece W O C T} (ht : piece.Tidy path False) {data : Json}
    (hd : (data.at? path).isSome) : Loose (data.fill path piece.value) piece.works := by
  refine loose_of_marks ?_ fun work hw =>
    ⟨?_, Piece.bare_of_mem_marks (Piece.mark_mem_marks hw)⟩
  · have hn := ht.nodup
    rw [Piece.marks_eq, List.map_append, List.map_map] at hn
    have hf : Prod.fst ∘ Work.mark = (Work.path : Work W O C T → Path) := by
      funext work
      simp
    exact hf ▸ (List.nodup_append.1 hn).2.1
  · obtain ⟨rest, hr, hv | hf⟩ := ht.holds _ (Piece.mark_mem_marks hw)
    · rw [Work.mark_fst] at hr
      rw [hr, Json.at?_fill_append hd, hv]
    · exact hf.1.elim

/-- Parts that are settled one after the other. -/
theorem settles_parts {c : Container} {data : Json} (hd : (data.at? path).isSome)
    {parts : List (Segment × Piece W O C T)} {made : List (Segment × Answer)}
    (hc : List.Forall₂ (fun part a => part.1 = a.1
      ∧ Completes answers (path ++ [part.1]) part.2 a.2) parts made)
    (before : List (Segment × Json))
    (hs : c.Admits (before.map Prod.fst ++ parts.map Prod.fst)) :
    ∃ errors nulled,
      Settles answers
          (data.fill path (c.build (before ++ parts.map fun part => (part.1, part.2.value))))
          (parts.flatMap (·.2.works))
          (data.fill path (c.build (before ++ made.map fun a => (a.1, a.2.value)))) errors nulled
        ∧ (made.any (·.2.nulled) = false → nulled = false
          ∧ (parts.flatMap (·.2.errors) ++ errors).Perm (made.flatMap (·.2.errors)))
        ∧ ∀ final : Json, (∀ a ∈ made, final.at? (path ++ [a.1]) = some a.2.value) →
          ((parts.flatMap (·.2.errors) ++ errors).filter (leadsTo final)).Perm
            ((made.flatMap (·.2.errors)).filter (leadsTo final)) := by
  induction hc generalizing before with
  | nil => exact ⟨[], false, .nil, fun _ => ⟨rfl, .nil⟩, fun _ _ => .nil⟩
  | @cons part a parts made hpart _ ih =>
    obtain ⟨s, piece⟩ := part
    obtain ⟨s', a⟩ := a
    obtain ⟨rfl, hcomp⟩ := hpart
    have hadm : ∀ value : Json, c.Admits ((before ++ (s, value) ::
        parts.map fun part => (part.1, part.2.value)).map Prod.fst) := fun value => by
      simpa [Function.comp_def] using hs
    have hmem : ∀ value : Json, (s, value) ∈ before ++ (s, value) ::
        parts.map fun part => (part.1, part.2.value) := fun value => by simp
    -- The part is read and written in the value that is being settled.
    have hat : (data.fill path (c.build (before ++ (s, piece.value) ::
        parts.map fun part => (part.1, part.2.value)))).at? (path ++ [s]) = some piece.value := by
      rw [Json.at?_fill_append hd, Container.at?_build (hadm _) (hmem _), Json.at?_nil]
    have hfill : (data.fill path (c.build (before ++ (s, piece.value) ::
        parts.map fun part => (part.1, part.2.value)))).fill (path ++ [s]) a.value
        = data.fill path (c.build ((before ++ [(s, a.value)]) ++
          parts.map fun part => (part.1, part.2.value))) := by
      rw [Json.fill_fill_append hd, Container.fill_build (hadm _), Json.fill_nil]
      simp
    obtain ⟨errors, nulled, hset, herr, hleads⟩ := hcomp _ (Option.isSome_iff_exists.2 ⟨_, hat⟩)
    rw [Json.fill_self hat, hfill] at hset
    obtain ⟨errors', nulled', hset', herr', hleads'⟩ :=
      ih (before ++ [(s, a.value)]) (by simpa using hs)
    -- The errors of the part are put before those of the others.
    have hmove : (((s, piece) :: parts).flatMap (·.2.errors) ++ (errors ++ errors')).Perm
        ((piece.errors ++ errors) ++ (parts.flatMap (·.2.errors) ++ errors')) := by
      simp only [List.flatMap_cons, List.append_assoc]
      exact .append_left _ (List.perm_append_comm_assoc ..)
    refine ⟨errors ++ errors', nulled || nulled', ?_, ?_, ?_⟩
    · have := hset.append hset'
      simpa using this
    · intro hn
      rw [List.any_cons, Bool.or_eq_false_iff] at hn
      obtain ⟨rfl, he⟩ := herr hn.1
      obtain ⟨rfl, he'⟩ := herr' hn.2
      exact ⟨rfl, hmove.trans (he.append he')⟩
    · intro final hfinal
      have hfirst := hleads final (hfinal _ (List.mem_cons_self ..))
      have hrest := hleads' final fun b hb => hfinal b (List.mem_cons_of_mem _ hb)
      refine (hmove.filter _).trans ?_
      rw [List.flatMap_cons, List.filter_append, List.filter_append a.errors]
      exact hfirst.append hrest

/-- Answers to its parts are an answer to a gathered value. -/
theorem completes_gather {c : Container} {parts : List (Segment × Piece W O C T)}
    {made : List (Segment × Answer)} (hs : c.Admits (parts.map Prod.fst))
    (ht : ∀ part ∈ parts, part.2.Tidy (path ++ [part.1]) False)
    (hc : List.Forall₂ (fun part a => part.1 = a.1
      ∧ Completes answers (path ++ [part.1]) part.2 a.2) parts made) :
    Completes answers path (.gather c parts) (.gather c made) := by
  intro data hd
  obtain ⟨errors, nulled, hset, herr, hleads⟩ := settles_parts hd hc [] (by simpa using hs)
  have hperm := (Piece.works_gather c parts).symm
  have hloose := (loose_of_tidy (Piece.tidy_gather hs ht) hd).perm hperm.symm
  obtain ⟨errors', he, hset⟩ := hset.perm hloose hperm
  have hsame : ((Piece.gather c parts).errors ++ errors').Perm
      (parts.flatMap (·.2.errors) ++ errors) := List.Perm.append_left _ he.symm
  refine ⟨errors', nulled, hset, ?_, ?_⟩
  · intro hn
    obtain ⟨hn, hp⟩ := herr hn
    exact ⟨hn, hsame.trans hp⟩
  · intro final hfinal
    refine (hsame.filter _).trans (hleads final ?_)
    intro a ha
    have hsteps : (made.map fun a => (a.1, a.2.value)).map Prod.fst = parts.map Prod.fst := by
      rw [List.map_map, ← List.forall₂_eq_eq_eq, List.forall₂_map_left_iff,
        List.forall₂_map_right_iff]
      exact hc.flip.imp fun _ _ h => h.1.symm
    have hmem : (a.1, a.2.value) ∈ made.map fun a => (a.1, a.2.value) := List.mem_map_of_mem ha
    rw [Json.at?_append_of_eq hfinal]
    exact (Container.at?_build (hsteps ▸ hs) hmem []).trans (Json.at?_nil _)

end

/-! ## Work and the interpreter -/

section
variable {α β γ : Type} {R : α → β → Prop} {S : α → γ → Prop}

/-- Two lists that correspond to one list correspond to each other. -/
theorem forall₂_join {as : List α} {bs : List β} {cs : List γ} (h : List.Forall₂ R as bs)
    (h' : List.Forall₂ S as cs) :
    List.Forall₂ (fun b c => ∃ a ∈ as, R a b ∧ S a c) bs cs := by
  induction h generalizing cs with
  | nil =>
    cases h'
    exact .nil
  | @cons a b as bs hab _ ih =>
    cases h' with
    | cons hac h' =>
      refine .cons ⟨a, List.mem_cons_self .., hab, hac⟩ ((ih h').imp ?_)
      rintro b c ⟨a, ha, hR, hS⟩
      exact ⟨a, List.mem_cons_of_mem _ ha, hR, hS⟩

/-- Whatever is on the right of lists that are related has something on the left. -/
theorem exists_of_forall₂ {as : List α} {bs : List β} (h : List.Forall₂ R as bs) {b : β}
    (hb : b ∈ bs) : ∃ a ∈ as, R a b := by
  induction h with
  | nil => cases hb
  | @cons a b' as bs hab _ ih =>
    rcases List.mem_cons.1 hb with rfl | hb
    · exact ⟨a, List.mem_cons_self .., hab⟩
    · obtain ⟨a', ha, hR⟩ := ih hb
      exact ⟨a', List.mem_cons_of_mem _ ha, hR⟩

end

/-- What the interpreter makes of work, given its answers to the work that is left. -/
def opened (setting : Setting W O C T) (world : W) (deeper : Work W O C T → Option Answer)
    (work : Work W O C T) : Option Answer :=
  match work with
  | .object frame => answerObject setting world deeper frame
  | .task pending => deeper (.task pending)
  | .outcome pending outcome => answerOutcome setting world deeper pending outcome

section
variable {setting : Setting W O C T} {root : Node (Definition W O C T)} {world : W}
  {deeper : Work W O C T → Option Answer} {path : Path}

/-- What one value leaves is nothing, or one piece of work on its slot. -/
theorem works_of_single {invocation : Invocation W O C T} {type : TypeRef}
    {value : FieldValue O C T} {piece : Piece W O C T}
    (h : piece.Single setting invocation type path value) :
    piece.works = [] ∨ ∃ work, piece.works = [work] ∧ piece.errors = [] ∧ work.path = path := by
  cases h with
  | leaf | failed => exact .inl rfl
  | waiting | object => exact .inr ⟨_, rfl, rfl, rfl⟩

/-- Settling the work of a single value makes it the interpreter's answer. -/
theorem completes_single {invocation : Invocation W O C T} {type : TypeRef}
    {value : FieldValue O C T} {a : Answer}
    (h : answerSingle setting world deeper invocation type path value = some a) :
    Completes (fun work a => deeper work = some a) path
      (Piece.ofSingle setting invocation type path value world).1 a := by
  rw [answerSingle_eq] at h
  unfold Piece.answered at h
  rcases works_of_single (Piece.single_ofSingle setting invocation type path value world)
    with hw | ⟨work, hw, he, hp⟩
  · rw [hw] at h
    cases h
    exact completes_leaf hw
  · rw [hw] at h
    exact completes_of_works hw he hp h

/-- A single value has an answer exactly if all work it leaves does. -/
theorem isSome_answerSingle {invocation : Invocation W O C T} {type : TypeRef}
    {value : FieldValue O C T} :
    (answerSingle setting world deeper invocation type path value).isSome
      ↔ ∀ work ∈ (Piece.ofSingle setting invocation type path value world).1.works,
        (deeper work).isSome := by
  rw [answerSingle_eq]
  unfold Piece.answered
  rcases works_of_single (Piece.single_ofSingle setting invocation type path value world)
    with hw | ⟨work, hw, -, -⟩ <;> simp [hw]

/-- A piece that leaves nothing open needs no further answers. -/
theorem isSome_of_works_nil {piece : Piece W O C T} (hw : piece.works = []) (a : Answer) :
    (some a).isSome ↔ ∀ work ∈ piece.works, (deeper work).isSome := by
  simp [hw]

/-- The steps to the items of a list. -/
theorem admits_items {β : Type} (items : List β) {γ : Type} (f : β × Nat → Segment × γ)
    (hf : ∀ item, (f item).1 = .index item.2) :
    Container.array.Admits ((items.zipIdx.map f).map Prod.fst) := by
  have hsteps : (items.zipIdx.map f).map Prod.fst = (items.zipIdx.map Prod.snd).map .index := by
    rw [List.map_map, List.map_map]
    exact List.map_congr_left fun item _ => hf item
  rw [hsteps, List.zipIdx_map_snd, ← List.range_eq_range']
  exact Container.admits_array items.length

/-- Settling the work of the items makes the list the interpreter's answer, if each item is answered
so. -/
theorem completes_items {make : Path → FieldValue O C T → W → Piece W O C T × W}
    {item : Path → FieldValue O C T → Option Answer}
    (hm : ∀ path value, (make path value world).2 = world)
    (ht : ∀ path value, (make path value world).1.Tidy path False)
    (hi : ∀ path value a, item path value = some a →
      Completes (fun work a => deeper work = some a) path (make path value world).1 a)
    {items : List (FieldValue O C T)} {a : Answer} (h : answerItems item path items = some a) :
    Completes (fun work a => deeper work = some a) path
      (Piece.ofItems make path items world).1 a := by
  obtain ⟨made, hmade, rfl⟩ := Option.map_eq_some_iff.1 h
  rw [Piece.ofItems_eq hm]
  refine completes_gather (admits_items items _ fun _ => rfl) ?_ ?_
  · intro part hp
    obtain ⟨item, -, rfl⟩ := List.mem_map.1 hp
    exact ht ..
  · rw [List.forall₂_map_left_iff]
    refine (mapM_eq_some_iff.1 hmade).imp ?_
    intro value part hp
    obtain ⟨a, ha, rfl⟩ := Option.map_eq_some_iff.1 hp
    exact ⟨rfl, hi _ _ _ ha⟩

/-- A list has an answer exactly if all work that its items leave does. -/
theorem isSome_answerItems {make : Path → FieldValue O C T → W → Piece W O C T × W}
    {item : Path → FieldValue O C T → Option Answer}
    (hm : ∀ path value, (make path value world).2 = world)
    (hi : ∀ path value, (item path value).isSome
      ↔ ∀ work ∈ (make path value world).1.works, (deeper work).isSome)
    {items : List (FieldValue O C T)} :
    (answerItems item path items).isSome
      ↔ ∀ work ∈ (Piece.ofItems make path items world).1.works, (deeper work).isSome := by
  rw [Piece.ofItems_eq hm, answerItems, Option.isSome_map, isSome_mapM]
  simp only [Option.isSome_map, hi, Piece.mem_works_gather, List.mem_map]
  constructor
  · rintro h work ⟨part, ⟨value, hv, rfl⟩, hw⟩
    exact h value hv work hw
  · intro h value hv work hw
    exact h work ⟨_, ⟨value, hv, rfl⟩, hw⟩

variable (h : SideEffectFree setting root world)
include h

/-- The interpreter's answer to a value is what settling its piece makes of it. -/
theorem completes_ofValue {invocation : Invocation W O C T}
    (hd : invocation.descriptor.Keeps world) {type : TypeRef} {value : FieldValue O C T}
    {a : Answer} (ha : answerValue setting world deeper invocation type path value = some a) :
    Completes (fun work a => deeper work = some a) path
      (Piece.ofValue setting invocation type path value world).1 a := by
  induction type generalizing path value a with
  | named name | nonNullNamed name => exact completes_single ha
  | list item ih | nonNullList item ih =>
    simp only [answerValue] at ha
    simp only [Piece.ofValue]
    cases hl : listItems? setting.host value with
    | none =>
      rw [hl] at ha
      exact completes_single ha
    | some items =>
      rw [hl] at ha
      exact completes_items (Piece.ofValue_snd h hd item)
        (fun path value => (Piece.fits_ofValue setting invocation item path value world).tidy)
        (fun _ _ _ => ih) ha

/-- A value has an answer exactly if all work it leaves does. -/
theorem isSome_answerValue {invocation : Invocation W O C T}
    (hd : invocation.descriptor.Keeps world) {type : TypeRef} {value : FieldValue O C T} :
    (answerValue setting world deeper invocation type path value).isSome
      ↔ ∀ work ∈ (Piece.ofValue setting invocation type path value world).1.works,
        (deeper work).isSome := by
  induction type generalizing path value with
  | named name | nonNullNamed name => exact isSome_answerSingle
  | list item ih | nonNullList item ih =>
    simp only [answerValue, Piece.ofValue]
    cases hl : listItems? setting.host value with
    | none => exact isSome_answerSingle
    | some items => exact isSome_answerItems (Piece.ofValue_snd h hd item) fun _ _ => ih

/-- The interpreter's answer to a field is what settling its piece makes of it. -/
theorem completes_ofField {frame : Frame W O C T} {child : Node (Definition W O C T)}
    (hc : Node.Within root child) {piece : Piece W O C T}
    (hp : Piece.ofField setting world frame child = .ok piece) {a : Answer}
    (ha : answerField setting world deeper frame child = some a) :
    Completes (fun work a => deeper work = some a) (frame.path ++ [.key child.key]) piece a := by
  revert hp ha
  simp only [Piece.ofField, answerField]
  cases child.isTypename with
  | true =>
    rintro ⟨⟩ ⟨⟩
    exact completes_leaf rfl
  | false =>
    cases hdef : child.definition? with
    | none =>
      rintro ⟨⟩ ⟨⟩
      exact completes_leaf rfl
    | some definition =>
      have hd := h.descriptors child hc definition (List.mem_of_mem_head? hdef)
      simp only [Bool.false_eq_true, if_false]
      cases outcomeOf setting world frame.source definition.descriptor
        (definition.descriptor.coerceArguments child.arguments setting.vars) with
      | ok value =>
        rintro ⟨⟩ ha
        exact completes_ofValue h hd ha
      | error error =>
        dsimp only
        split
        · rintro ⟨⟩
        · rintro ⟨⟩ ⟨⟩
          exact completes_leaf rfl

/-- The piece of a field fits its slot. -/
theorem fits_ofField {frame : Frame W O C T} (hs : frame.source.Keeps world)
    {child : Node (Definition W O C T)} (hc : Node.Within root child) {piece : Piece W O C T}
    (hp : Piece.ofField setting world frame child = .ok piece) :
    piece.Fits child child.type (frame.path ++ [.key child.key]) := by
  obtain ⟨known, he, -⟩ := fieldPart_eq h hs hc (.inl rfl)
  exact Piece.fits_fieldPart (he.trans (by rw [hp]))

/-- A field has an answer exactly if all work it leaves does. -/
theorem isSome_answerField {frame : Frame W O C T} {child : Node (Definition W O C T)}
    (hc : Node.Within root child) {piece : Piece W O C T}
    (hp : Piece.ofField setting world frame child = .ok piece) :
    (answerField setting world deeper frame child).isSome
      ↔ ∀ work ∈ piece.works, (deeper work).isSome := by
  revert hp
  simp only [Piece.ofField, answerField]
  cases child.isTypename with
  | true => rintro ⟨⟩; exact isSome_of_works_nil rfl _
  | false =>
    cases hdef : child.definition? with
    | none => rintro ⟨⟩; exact isSome_of_works_nil rfl _
    | some definition =>
      have hd := h.descriptors child hc definition (List.mem_of_mem_head? hdef)
      simp only [Bool.false_eq_true, if_false]
      cases outcomeOf setting world frame.source definition.descriptor
        (definition.descriptor.coerceArguments child.arguments setting.vars) with
      | ok value =>
        rintro ⟨⟩
        exact isSome_answerValue h hd
      | error error =>
        dsimp only
        split
        · rintro ⟨⟩
        · rintro ⟨⟩
          exact isSome_of_works_nil rfl _

omit h in
/-- A field fails its object in the interpreter where it does in the engine. -/
theorem failing?_eq (frame : Frame W O C T) :
    failing? setting world frame = failure? setting world frame := by
  funext child
  simp only [failing?, failure?, Piece.ofField]
  cases child.isTypename with
  | true => rfl
  | false =>
    cases child.definition? with
    | none => rfl
    | some definition =>
      simp only [Bool.false_eq_true, if_false, Option.bind_some]
      cases outcomeOf setting world frame.source definition.descriptor
        (definition.descriptor.coerceArguments child.arguments setting.vars) with
      | ok value => rfl
      | error error =>
        dsimp only
        split <;> rfl

section
variable {frame : Frame W O C T} (hw : Node.Within root frame.node) (hs : frame.source.Keeps world)
include hw hs

/-- What becomes of an object: a field fails it, or all fields are there. -/
theorem ofFrame_cases :
    (∃ error, (Piece.included setting frame).findSome? (failing? setting world frame) = some error
        ∧ Piece.fails setting frame world)
      ∨ ((Piece.included setting frame).findSome? (failing? setting world frame) = none
        ∧ ∃ parts, (Piece.ofFrame setting frame world).1 = .gather .object parts
          ∧ Piece.fails setting frame world = false
          ∧ List.Forall₂ (fun child part => part.1 = .key child.key
              ∧ Piece.ofField setting world frame child = .ok part.2)
            (Piece.included setting frame) parts) := by
  have hin : ∀ child ∈ Piece.included setting frame, Node.Within root child :=
    fun _ hc => within_of_mem_included hw hc
  obtain ⟨parts, he, -, hall⟩ := fieldParts_eq h hs hin (.inl rfl)
  rw [failing?_eq]
  cases hf : (Piece.included setting frame).findSome? (failure? setting world frame) with
  | some error => exact .inl ⟨error, rfl, by simp [Piece.fails, he, hf]⟩
  | none =>
    refine .inr ⟨rfl, parts, ?_, by simp [Piece.fails, he, hf], hall hf⟩
    simp [Piece.ofFrame, he, hf, Piece.close]

/-- The errors of an object that a field failed: those of the fields before it, which lie within
the object, and that of the field. -/
theorem errors_ofFrame_of_failing {error : FieldError}
    (hf : (Piece.included setting frame).findSome? (failing? setting world frame) = some error) :
    ∃ inner, (Piece.ofFrame setting frame world).1.errors
        = inner ++ [.ofFieldError error frame.path FieldError.Code.fieldResolution]
      ∧ ∀ e ∈ inner, ∃ s rest, e.path = some (frame.path ++ s :: rest) := by
  have hin : ∀ child ∈ Piece.included setting frame, Node.Within root child :=
    fun _ hc => within_of_mem_included hw hc
  obtain ⟨parts, he, -, -⟩ := fieldParts_eq h hs hin (.inl rfl)
  rw [failing?_eq] at hf
  rw [hf] at he
  refine ⟨parts.flatMap (·.2.errors), by simp [Piece.ofFrame, he, Piece.close], ?_⟩
  intro e hm
  obtain ⟨part, hp, hm⟩ := List.mem_flatMap.1 hm
  have hparts : part ∈ (Piece.fieldParts setting frame (Piece.included setting frame) none
      world).1 := by
    rw [he]
    exact hp
  obtain ⟨child, -, -, hfits⟩ := Piece.fits_of_mem_fieldParts hparts
  obtain ⟨path, hpath⟩ := Option.isSome_iff_exists.1 (hfits.labelled e hm).1
  have hmark : (path, Json.null) ∈ part.2.marks := by
    simp only [Piece.marks, errorMarks, List.mem_append, List.mem_filterMap]
    exact .inl (.inl ⟨e, hm, by rw [hpath]; rfl⟩)
  obtain ⟨rest, hr, -⟩ := hfits.tidy.holds _ hmark
  have hr : path = frame.path ++ [part.1] ++ rest := hr
  exact ⟨part.1, rest, by simp [hpath, hr]⟩

/-- The interpreter's answer to an object is what settling its piece makes of it. -/
theorem completes_ofFrame (hk : ((Piece.included setting frame).map Node.key).Nodup) {a : Answer}
    (ha : answerObject setting world deeper frame = some a) :
    Completes (fun work a => deeper work = some a) frame.path
      (Piece.ofFrame setting frame world).1 a := by
  rcases ofFrame_cases h hw hs with ⟨error, hf, hfails⟩ | ⟨hf, parts, hp, -, hall⟩
  · simp only [answerObject, hf] at ha
    cases ha
    intro data hd
    refine ⟨[], false, ?_, (fun h => by cases h), ?_⟩
    · have hv : (Piece.ofFrame setting frame world).1.value = .null :=
        Piece.value_ofFrame_eq_null_iff.2 hfails
      rw [hv]
      -- Everything that the object leaves open is gone with it.
      refine Settles.of_gone ?_
      intro left hl
      have hl : left ∈ ((Work.object frame).piece setting world).1.works := hl
      obtain ⟨rest, hr, hne⟩ := Work.path_of_mem_works hl
      obtain ⟨s, rest, rfl⟩ := List.exists_cons_of_ne_nil (hne ⟨frame, rfl⟩)
      rw [hr]
      simp [Work.path, Json.at?_fill_append hd, Json.at?_cons]
    · -- The errors of its fields lead to nothing.
      intro final hfinal
      obtain ⟨parts, herrors, hparts⟩ := errors_ofFrame_of_failing h hw hs hf
      rw [herrors, List.append_nil, List.filter_append, List.filter_eq_nil_iff.2]
      · exact .refl _
      · intro e he
        obtain ⟨s, rest, hp⟩ := hparts e he
        simp [leadsTo, hp, Json.at?_append_of_eq hfinal, Json.at?_cons]
  · simp only [answerObject, hf] at ha
    obtain ⟨made, hmade, rfl⟩ := Option.map_eq_some_iff.1 ha
    have hsteps : fieldSteps (Piece.included setting frame) = parts.map Prod.fst := by
      rw [fieldSteps, ← List.forall₂_eq_eq_eq, List.forall₂_map_left_iff,
        List.forall₂_map_right_iff]
      exact hall.imp fun _ _ hpart => hpart.1.symm
    have hadmits : Container.object.Admits (parts.map Prod.fst) := by
      rw [← hsteps]
      simpa [fieldSteps, Function.comp_def] using Container.admits_object hk
    rw [hp]
    refine completes_gather hadmits ?_ ((forall₂_join hall (mapM_eq_some_iff.1 hmade)).imp ?_)
    · intro part hpart
      obtain ⟨child, hc, hs', hok⟩ := exists_of_forall₂ hall hpart
      rw [hs']
      exact (fits_ofField h hs (within_of_mem_included hw hc) hok).tidy
    · rintro part answered ⟨child, hc, ⟨hs', hok⟩, hans⟩
      obtain ⟨a, ha, rfl⟩ := Option.map_eq_some_iff.1 hans
      rw [hs']
      exact ⟨rfl, completes_ofField h (within_of_mem_included hw hc) hok ha⟩

/-- An object that no field fails has an answer if what it leaves open has answers. -/
theorem isSome_answerObject :
    (answerObject setting world deeper frame).isSome
      ↔ (Piece.fails setting frame world = false →
        ∀ left ∈ (Piece.ofFrame setting frame world).1.works, (deeper left).isSome) := by
  rcases ofFrame_cases h hw hs with ⟨error, hf, hfails⟩ | ⟨hf, parts, hp, hfails, hall⟩
  · simp [answerObject, hf, hfails]
  · have hfield : ∀ child ∈ Piece.included setting frame, ∀ part ∈ parts,
        Piece.ofField setting world frame child = .ok part.2 →
          ((answerField setting world deeper frame child).isSome
            ↔ ∀ left ∈ part.2.works, (deeper left).isSome) :=
      fun child hc part _ hok => isSome_answerField h (within_of_mem_included hw hc) hok
    simp only [answerObject, hf, Option.isSome_map, isSome_mapM, hp, hfails, forall_const,
      Piece.mem_works_gather]
    constructor
    · rintro hall' left ⟨part, hpart, hleft⟩
      obtain ⟨child, hc, -, hok⟩ := exists_of_forall₂ hall hpart
      exact (hfield child hc part hpart hok).1 (hall' child hc) left hleft
    · intro hall' child hc
      obtain ⟨part, hpart, -, hok⟩ := exists_of_forall₂ hall.flip hc
      exact (hfield child hc part hpart hok).2 fun left hl => hall' left ⟨part, hpart, hl⟩

end

/-- The interpreter's answer to work is what settling its piece makes of it. -/
theorem completes_piece {work : Work W O C T} (hw : Node.Within root work.node)
    (hs : work.Keeps world)
    (hk : ∀ frame, work = .object frame → ((Piece.included setting frame).map Node.key).Nodup)
    {a : Answer} (ha : opened setting world deeper work = some a) :
    Completes (fun work a => deeper work = some a) work.path (work.piece setting world).1 a := by
  cases work with
  | object frame => exact completes_ofFrame h hw hs (hk frame rfl) ha
  | task pending => exact completes_of_works rfl rfl rfl ha
  | outcome pending outcome =>
    cases outcome with
    | ok value => exact completes_ofValue h hs ha
    | error error =>
      cases ha
      exact completes_leaf rfl

/-- There is an answer to work if there are answers to what it leaves open. -/
theorem isSome_opened {work : Work W O C T} (hw : Node.Within root work.node)
    (hs : work.Keeps world) :
    (opened setting world deeper work).isSome
      ↔ (work.fails setting world = false →
        ∀ left ∈ (work.piece setting world).1.works, (deeper left).isSome) := by
  cases work with
  | object frame => exact isSome_answerObject h hw hs
  | task pending => simp [opened, Work.fails, Work.piece, Piece.waiting, Piece.works]
  | outcome pending outcome =>
    have hiff : (answerOutcome setting world deeper pending outcome).isSome
        ↔ ∀ left ∈ (Piece.ofOutcome setting pending outcome world).1.works,
          (deeper left).isSome := by
      cases outcome with
      | ok value => exact isSome_answerValue h hs
      | error error =>
        have hw : (Piece.ofOutcome setting pending (.error error) world).1.works = [] := rfl
        simp [answerOutcome, hw]
    simpa [opened, Work.fails, Work.piece] using hiff

end

end QueryEngine.Execution
