import Mathlib.Data.List.Perm.Basic
import QueryEngine.Proofs.Execution.Graft

/-!
# Marks

An error, a queued object and a queued task each mark a slot. A marked slot holds nothing that a
path could lead into: null for an error or a task, the empty object for an object. Marks of one
execution are distinct, so no marked slot lies within another one, and a slot can be filled without
any other mark being touched (`Marked.apart`, `Marked.graft`). The only other way for a marked slot
to be is to be lost: an object around it failed and is null as a whole.
-/

namespace QueryEngine.Execution

variable {W O C T : Type}

/-- A slot and what it holds. -/
abbrev Mark := Path × Json

/-- The marks of errors. -/
def errorMarks (errors : List ResponseError) : List Mark :=
  errors.filterMap fun error => error.path.map fun path => (path, .null)

/-- The mark of a queued object. -/
def Frame.mark (frame : Frame W O C T) : Mark := (frame.path, .object [])

/-- The mark of a queued task. -/
def Pending.mark (pending : Pending W O C T) : Mark := (pending.path, .null)

/-- The marks of a piece. -/
def Piece.marks (piece : Piece W O C T) : List Mark :=
  errorMarks piece.errors ++ piece.frames.map Frame.mark ++ piece.pending.map Pending.mark

/-- A slot that is gone because one around it was lost and holds null. -/
def Gone (data : Json) (lost : Path → Prop) (path : Path) : Prop :=
  ∃ around rest, lost around ∧ rest ≠ [] ∧ path = around ++ rest ∧ data.at? around = some .null

/-- Distinct marks, each of a slot that holds what it should or is gone. -/
structure Marked (data : Json) (lost : Path → Prop) (marks : List Mark) : Prop where
  nodup : (marks.map Prod.fst).Nodup
  bare : ∀ mark ∈ marks, ∀ s, mark.2.child? s = none
  holds : ∀ mark ∈ marks, data.at? mark.1 = some mark.2 ∨ Gone data lost mark.1
  lost_mem : ∀ path, lost path → (path, .null) ∈ marks

/-- Below a value without parts there is only the value itself. -/
theorem eq_nil_of_at?_isSome {value : Json} (h : ∀ s, value.child? s = none) {rest : Path}
    (hr : (value.at? rest).isSome) : rest = [] := by
  cases rest with
  | nil => rfl
  | cons s rest => simp [Json.at?_cons, h s] at hr

/-- Slots with values that have no parts lie apart. -/
theorem apart_of_at?_eq {data v w : Json} {p q : Path} (hp : data.at? p = some v)
    (hq : data.at? q = some w) (hv : ∀ s, v.child? s = none) (hw : ∀ s, w.child? s = none)
    (hne : p ≠ q) : Path.Apart p q := by
  refine ⟨?_, ?_⟩
  · rintro ⟨tail, rfl⟩
    rw [Json.at?_append_of_eq hp] at hq
    exact hne (by simp [eq_nil_of_at?_isSome hv (Option.isSome_iff_exists.2 ⟨_, hq⟩)])
  · rintro ⟨tail, rfl⟩
    rw [Json.at?_append_of_eq hq] at hp
    exact hne (by simp [eq_nil_of_at?_isSome hw (Option.isSome_iff_exists.2 ⟨_, hp⟩)])

/-- In null there is no slot but its own. -/
theorem eq_nil_of_at?_null {value : Json} {rest : Path} (h : Json.null.at? rest = some value) :
    rest = [] :=
  eq_nil_of_at?_isSome (fun s => Json.child?_null s) (Option.isSome_iff_exists.2 ⟨_, h⟩)

/-- Filling a slot leaves no null around it. -/
theorem prefix_of_at?_fill_eq_null {data value : Json} {path slot : Path}
    (h : (data.at? slot).isSome) (hp : path <+: slot)
    (hn : (data.fill slot value).at? path = some .null) : slot <+: path := by
  obtain ⟨tail, rfl⟩ := hp
  have hself := Json.at?_fill_self h value
  rw [Json.at?_append_of_eq hn] at hself
  obtain rfl := eq_nil_of_at?_null hself
  simp

/-- A slot that is gone holds nothing. -/
theorem Gone.at?_eq_none {data : Json} {lost : Path → Prop} {path : Path}
    (h : Gone data lost path) : data.at? path = none := by
  obtain ⟨around, rest, -, hne, rfl, hn⟩ := h
  rw [Json.at?_append_of_eq hn]
  obtain ⟨s, rest, rfl⟩ := List.exists_cons_of_ne_nil hne
  simp [Json.at?_cons]

namespace Marked

variable {data : Json} {lost : Path → Prop} {marks rest : List Mark} {path : Path} {value : Json}

/-- The order of the marks does not matter. -/
theorem perm (h : Marked data lost marks) {marks' : List Mark} (hp : marks.Perm marks') :
    Marked data lost marks' where
  nodup := (hp.map Prod.fst).nodup h.nodup
  bare mark hm := h.bare mark (hp.mem_iff.2 hm)
  holds mark hm := h.holds mark (hp.mem_iff.2 hm)
  lost_mem path hl := hp.mem_iff.1 (h.lost_mem path hl)

/-- A marked slot that exists holds what it should. -/
theorem at?_eq (h : Marked data lost marks) {mark : Mark} (hm : mark ∈ marks)
    (hs : (data.at? mark.1).isSome) : data.at? mark.1 = some mark.2 := by
  rcases h.holds mark hm with hv | hg
  · exact hv
  · simp [hg.at?_eq_none] at hs

/-- The other marks lie apart from a marked slot that exists. -/
theorem apart (h : Marked data lost ((path, value) :: rest)) (hp : (data.at? path).isSome)
    (hl : ¬ lost path) {mark : Mark} (hm : mark ∈ rest) : Path.Apart path mark.1 := by
  have hpath : data.at? path = some value := h.at?_eq (List.mem_cons_self ..) hp
  have hlive : ∀ other ∈ rest, data.at? other.1 = some other.2 → Path.Apart path other.1 := by
    intro other ho hv
    refine apart_of_at?_eq hpath hv (h.bare _ (List.mem_cons_self ..))
      (h.bare other (List.mem_cons_of_mem _ ho)) fun e => ?_
    exact (List.nodup_cons.1 h.nodup).1 (List.mem_map.2 ⟨other, ho, e.symm⟩)
  rcases h.holds mark (List.mem_cons_of_mem _ hm) with hv | ⟨around, tail, hlost, -, he, hn⟩
  · exact hlive mark hm hv
  · rcases List.mem_cons.1 (h.lost_mem around hlost) with heq | hmem
    · exact absurd ((Prod.mk.inj heq).1 ▸ hlost) hl
    · exact he ▸ (hlive (around, .null) hmem hn).append_right tail

/-- A mark of a slot that does not exist can be left out. -/
theorem drop (h : Marked data lost ((path, value) :: rest)) (hl : ¬ lost path) :
    Marked data lost rest where
  nodup := (List.nodup_cons.1 h.nodup).2
  bare mark hm := h.bare mark (List.mem_cons_of_mem _ hm)
  holds mark hm := h.holds mark (List.mem_cons_of_mem _ hm)
  lost_mem around hlost := by
    rcases List.mem_cons.1 (h.lost_mem around hlost) with heq | hmem
    · exact absurd ((Prod.mk.inj heq).1 ▸ hlost) hl
    · exact hmem

end Marked

/-! ## Pieces -/

namespace Piece

/-- A piece in a slot has distinct marks within the slot, each of a slot that holds what it should.
If the piece is that of an object that `failed`, the slot itself is marked and everything within
it is gone. -/
structure Tidy (path : Path) (piece : Piece W O C T) (failed : Prop) : Prop where
  nodup : (piece.marks.map Prod.fst).Nodup
  holds : ∀ mark ∈ piece.marks, ∃ rest, mark.1 = path ++ rest
    ∧ (piece.value.at? rest = some mark.2 ∨ failed ∧ rest ≠ [])
  failed : failed → piece.value = .null ∧ (path, .null) ∈ piece.marks

/-- What is marked in a piece has nothing inside. -/
theorem bare_of_mem_marks {piece : Piece W O C T} {mark : Mark} (h : mark ∈ piece.marks)
    (s : Segment) : mark.2.child? s = none := by
  simp only [marks, errorMarks, List.mem_append, List.mem_filterMap, List.mem_map] at h
  rcases h with (⟨error, -, he⟩ | ⟨frame, -, rfl⟩) | ⟨pending, -, rfl⟩
  · obtain ⟨path, -, rfl⟩ := Option.map_eq_some_iff.1 he
    simp
  · simp [Frame.mark]
  · simp [Pending.mark]

/-- A piece with no mark but that of its own slot is tidy. -/
theorem tidy_of_marks_eq {path : Path} {piece : Piece W O C T}
    (h : piece.marks = [] ∨ piece.marks = [(path, piece.value)]) : piece.Tidy path False where
  nodup := by rcases h with h | h <;> simp [h]
  holds mark hm := by
    rcases h with h | h <;> rw [h] at hm
    · cases hm
    · exact ⟨[], by simp [List.mem_singleton.1 hm]⟩
  failed := False.elim

/-- The marks of a gathered value are those of its parts. -/
theorem marks_gather (c : Container) (parts : List (Segment × Piece W O C T)) :
    (gather c parts).marks.Perm (parts.flatMap (·.2.marks)) := by
  have h : (gather c parts).marks
      = (parts.flatMap fun part => errorMarks part.2.errors)
        ++ (parts.flatMap fun part => part.2.frames.map Frame.mark)
        ++ parts.flatMap fun part => part.2.pending.map Pending.mark := by
    simp [marks, gather, errorMarks, List.filterMap_flatMap, List.map_flatMap]
  rw [h]
  exact ((List.flatMap_append_perm ..).append_right _).trans (List.flatMap_append_perm ..)

/-- What is marked in a gathered value lies within one of its parts. -/
theorem mem_marks_gather {c : Container} {parts : List (Segment × Piece W O C T)} {mark : Mark}
    (h : mark ∈ (gather c parts).marks) : ∃ part ∈ parts, mark ∈ part.2.marks :=
  List.mem_flatMap.1 ((marks_gather c parts).mem_iff.1 h)

/-- The marks of parts under distinct steps are distinct. -/
theorem nodup_flatMap_marks {path : Path} {parts : List (Segment × Piece W O C T)}
    (hs : (parts.map Prod.fst).Nodup)
    (ht : ∀ part ∈ parts, part.2.Tidy (path ++ [part.1]) False) :
    ((parts.flatMap (·.2.marks)).map Prod.fst).Nodup := by
  induction parts with
  | nil => simp
  | cons part rest ih =>
    rw [List.map_cons, List.nodup_cons] at hs
    rw [List.flatMap_cons, List.map_append, List.nodup_append]
    refine ⟨(ht part (List.mem_cons_self ..)).nodup,
      ih hs.2 fun other ho => ht other (List.mem_cons_of_mem _ ho), ?_⟩
    intro a ha b hb hab
    subst hab
    obtain ⟨mark, hm, rfl⟩ := List.mem_map.1 ha
    obtain ⟨mark', hm', he⟩ := List.mem_map.1 hb
    obtain ⟨other, ho, hmo⟩ := List.mem_flatMap.1 hm'
    obtain ⟨r, hr, -⟩ := (ht part (List.mem_cons_self ..)).holds mark hm
    obtain ⟨r', hr', -⟩ := (ht other (List.mem_cons_of_mem _ ho)).holds mark' hmo
    have hsame : part.1 :: r = other.1 :: r' := by
      have := hr.symm.trans (he.symm.trans hr')
      simpa using this
    exact hs.1 ((List.cons.inj hsame).1 ▸ List.mem_map_of_mem (f := Prod.fst) ho)

/-- A gathered value marks nothing but slots strictly within it, where its parts hold what they
should. -/
theorem holds_gather {path : Path} {c : Container} {parts : List (Segment × Piece W O C T)}
    (hs : c.Admits (parts.map Prod.fst))
    (ht : ∀ part ∈ parts, part.2.Tidy (path ++ [part.1]) False) {mark : Mark}
    (hm : mark ∈ (gather c parts).marks) :
    ∃ rest, rest ≠ [] ∧ mark.1 = path ++ rest
      ∧ (gather c parts).value.at? rest = some mark.2 := by
  obtain ⟨part, hp, hm⟩ := mem_marks_gather hm
  obtain ⟨rest, hr, hv | hf⟩ := (ht part hp).holds mark hm
  · exact ⟨part.1 :: rest, by simp, by simpa using hr, (at?_gather hs hp rest).trans hv⟩
  · exact hf.1.elim

/-- Tidy pieces put together under distinct steps are tidy. -/
theorem tidy_gather {path : Path} {c : Container} {parts : List (Segment × Piece W O C T)}
    (hs : c.Admits (parts.map Prod.fst))
    (ht : ∀ part ∈ parts, part.2.Tidy (path ++ [part.1]) False) :
    (gather c parts).Tidy path False where
  nodup := ((marks_gather c parts).map Prod.fst).symm.nodup (nodup_flatMap_marks hs.nodup ht)
  holds mark hm := by
    obtain ⟨rest, -, hr, hv⟩ := holds_gather hs ht hm
    exact ⟨rest, hr, .inl hv⟩
  failed := False.elim

end Piece

/-- Filling a marked slot with a tidy piece touches no other mark. -/
theorem Marked.graft {data : Json} {lost : Path → Prop} {rest : List Mark} {path : Path}
    {value : Json} (h : Marked data lost ((path, value) :: rest)) (hp : (data.at? path).isSome)
    (hl : ¬ lost path) {piece : Piece W O C T} {failed : Prop} (ht : piece.Tidy path failed) :
    Marked (data.fill path piece.value) (fun p => lost p ∨ failed ∧ p = path)
      (piece.marks ++ rest) where
  nodup := by
    rw [List.map_append, List.nodup_append]
    refine ⟨ht.nodup, (List.nodup_cons.1 h.nodup).2, ?_⟩
    intro a ha b hb hab
    subst hab
    obtain ⟨mark, hm, rfl⟩ := List.mem_map.1 ha
    obtain ⟨other, ho, he⟩ := List.mem_map.1 hb
    obtain ⟨tail, ht, -⟩ := ht.holds mark hm
    exact (h.apart hp hl ho).1 ⟨tail, by rw [he, ht]⟩
  bare mark hm := by
    rcases List.mem_append.1 hm with hm | hm
    · exact Piece.bare_of_mem_marks hm
    · exact h.bare mark (List.mem_cons_of_mem _ hm)
  holds mark hm := by
    rcases List.mem_append.1 hm with hm | hm
    · obtain ⟨tail, he, hv | ⟨hf, hne⟩⟩ := ht.holds mark hm
      · exact .inl (by rw [he, Json.at?_fill_append hp, hv])
      · refine .inr ⟨path, tail, .inr ⟨hf, rfl⟩, hne, he, ?_⟩
        rw [Json.at?_fill_self hp, (ht.failed hf).1]
    · have hap := h.apart hp hl hm
      rcases h.holds mark (List.mem_cons_of_mem _ hm) with hv | ⟨around, tail, hlost, hne, he, hn⟩
      · exact .inl (by rw [Json.at?_fill_of_apart hap, hv])
      · refine .inr ⟨around, tail, .inl hlost, hne, he, ?_⟩
        rcases List.mem_cons.1 (h.lost_mem around hlost) with heq | hmem
        · exact absurd ((Prod.mk.inj heq).1 ▸ hlost) hl
        · rw [Json.at?_fill_of_apart (h.apart hp hl hmem), hn]
  lost_mem p hlost := by
    rcases hlost with hlost | ⟨hf, rfl⟩
    · rcases List.mem_cons.1 (h.lost_mem p hlost) with heq | hmem
      · exact absurd ((Prod.mk.inj heq).1 ▸ hlost) hl
      · exact List.mem_append_right _ hmem
    · exact List.mem_append_left _ (ht.failed hf).2

end QueryEngine.Execution
