import QueryEngine.Proofs.Execution.Quiet

/-!
# An execution without one of its slots

`Moment.without` leaves out everything that a moment has in one slot: the value in the slot becomes
null, and the errors, the objects and the tasks within it are dropped. A move is either about the
slot only, and then nothing is left of it, or what is left of it is determined by what was left
before (`Advances`, `Sound.advances`).
-/

namespace QueryEngine

/-- Whether a path does not lead into a slot. -/
def Path.avoids (slot path : Path) : Bool :=
  ! slot.isPrefixOf path

@[simp] theorem Path.avoids_iff {slot path : Path} :
    slot.avoids path = true ↔ ¬ slot <+: path := by
  simp [avoids, ← List.isPrefixOf_iff_prefix]

/-- Whether an error is none of a field within a slot. -/
def ResponseError.avoids (slot : Path) (error : ResponseError) : Bool :=
  error.path.all slot.avoids

namespace Execution

open Moment

variable {W O C T : Type}

/-- The piece of the slot `path` without what it has in `slot`. -/
def Piece.without (slot path : Path) (piece : Piece W O C T) : Piece W O C T where
  value := piece.value.blank slot path
  errors := piece.errors.filter (·.avoids slot)
  frames := piece.frames.filter fun frame => slot.avoids frame.path
  pending := piece.pending.filter fun pending => slot.avoids pending.path

/-- What is left of a moment without what it has in a slot. The number of drain steps is left out
and the world is a given one. -/
def Moment.without (slot : Path) (world : W) (m : Moment W O C T) : Moment W O C T where
  steps := 0
  state :=
    { world
      data := m.state.data.fill slot .null
      errors := m.state.errors.filter (·.avoids slot)
      frontier := m.state.frontier.filter fun frame => slot.avoids frame.path
      pending := m.state.pending.filter fun pending => slot.avoids pending.path }
  due := m.due.filter fun due => slot.avoids due.1.path

/-! ## The next work -/

section
variable {slot : Path} {base : W} {m rest : Moment W O C T} {work : Work W O C T}

/-- Nothing is left of work within the slot. -/
theorem without_next_of_within (hn : m.next? = some (work, rest)) (hw : slot <+: work.path) :
    rest.without slot base = m.without slot base := by
  rcases next?_eq_some hn with ⟨pending, outcome, rfl, hd, hs⟩ | ⟨frame, rfl, hd, hr, -, hs⟩
  · have hp : slot.avoids pending.path = false := by simpa [Path.avoids, Work.path] using hw
    simp [Moment.without, hd, hs, hp]
  · have hp : slot.avoids frame.path = false := by simpa [Path.avoids, Work.path] using hw
    simp [Moment.without, hd, hr, hs, hp]

/-- Other work is the next also in what is left. -/
theorem next?_without (hn : m.next? = some (work, rest)) (hw : ¬ slot <+: work.path) :
    (m.without slot base).next? = some (work, rest.without slot base) := by
  rcases next?_eq_some hn with ⟨pending, outcome, rfl, hd, hs⟩ | ⟨frame, rfl, hd, hr, -, hs⟩
  · have hp : slot.avoids pending.path := Path.avoids_iff.2 hw
    simp [Moment.without, Moment.next?, hd, hs, hp]
  · have hp : slot.avoids frame.path := Path.avoids_iff.2 hw
    simp [Moment.without, Moment.next?, hd, hr, hs, hp]

/-- Where nothing is next, nothing is next without the slot. -/
theorem next?_without_eq_none (hn : m.next? = none) : (m.without slot base).next? = none := by
  obtain ⟨hd, hf⟩ := next?_eq_none hn
  simp [Moment.without, Moment.next?, hd, hf]

/-- Where nothing is open, nothing is open without the slot. -/
theorem works_without_eq_nil (h : m.works = []) : (m.without slot base).works = [] := by
  simp only [works, List.append_eq_nil_iff, List.map_eq_nil_iff] at h
  simp [works, Moment.without, h]

/-- A slot that does not lie within the left out one is there or not, as before. -/
theorem isSome_at?_without {path : Path} (hp : ¬ slot <+: path) :
    ((m.without slot base).state.data.at? path).isSome = (m.state.data.at? path).isSome :=
  Json.isSome_at?_fill_null hp _

/-- Leaving out a slot commutes with contributions to slots that do not lie within it. -/
theorem without_graft {path : Path} (hp : ¬ slot <+: path) (hs : (m.state.data.at? path).isSome)
    (result : Piece W O C T × W) :
    (m.graft path result).without slot base
      = (m.without slot base).graft path (result.1.without slot path, base) := by
  simp only [Moment.without, graft, State.graft, Piece.without, List.filter_append,
    Json.fill_fill_null hp hs]

end

/-! ## Pieces within the slot -/

/-- All that a piece in a slot leaves lies within the slot. -/
structure Piece.Inside (path : Path) (piece : Piece W O C T) : Prop where
  errors : ∀ error ∈ piece.errors, ∃ inner, error.path = some (path ++ inner)
  frames : ∀ frame ∈ piece.frames, ∃ inner, frame.path = path ++ inner
  pending : ∀ pending ∈ piece.pending, ∃ inner, pending.path = path ++ inner

/-- The marks of a tidy piece lie within its slot. -/
theorem Piece.Tidy.inside {path : Path} {piece : Piece W O C T} {failed : Prop}
    (ht : piece.Tidy path failed) (hl : ∀ error ∈ piece.errors, Labelled error) :
    piece.Inside path where
  errors error he := by
    obtain ⟨own, hp⟩ := Option.isSome_iff_exists.1 (hl error he).1
    have hmark : ((own, .null) : Mark) ∈ piece.marks := by
      rw [Piece.marks_eq]
      exact List.mem_append_left _ (List.mem_filterMap.2 ⟨error, he, by simp [hp]⟩)
    obtain ⟨inner, hi, -⟩ := ht.holds _ hmark
    exact ⟨inner, hp.trans (congrArg some hi)⟩
  frames frame hf := by
    obtain ⟨inner, hi, -⟩ := ht.holds frame.mark (List.mem_append_left _
      (List.mem_append_right _ (List.mem_map_of_mem hf)))
    exact ⟨inner, hi⟩
  pending pending hp := by
    obtain ⟨inner, hi, -⟩ := ht.holds pending.mark
      (List.mem_append_right _ (List.mem_map_of_mem hp))
    exact ⟨inner, hi⟩

/-- Nothing is left of a piece within the slot. -/
theorem Piece.Inside.without {slot path : Path} {piece : Piece W O C T}
    (h : piece.Inside path) (hp : slot <+: path) :
    (piece.without slot path).errors = [] ∧ (piece.without slot path).frames = []
      ∧ (piece.without slot path).pending = [] := by
  have hout : ∀ inner, slot.avoids (path ++ inner) = false := by
    intro inner
    simpa [Path.avoids] using hp.trans (List.prefix_append path inner)
  refine ⟨List.filter_eq_nil_iff.2 fun error hm => ?_,
    List.filter_eq_nil_iff.2 fun frame hm => ?_, List.filter_eq_nil_iff.2 fun pending hm => ?_⟩
  · obtain ⟨inner, hi⟩ := h.errors error hm
    simp [ResponseError.avoids, hi, hout]
  · obtain ⟨inner, hi⟩ := h.frames frame hm
    simp [hi, hout]
  · obtain ⟨inner, hi⟩ := h.pending pending hm
    simp [hi, hout]

/-- A contribution to a slot within the one that is left out is left out as a whole. -/
theorem without_graft_of_within {slot path : Path} {base : W} {m : Moment W O C T}
    {result : Piece W O C T × W} (hp : slot <+: path) (hi : result.1.Inside path) :
    (m.graft path result).without slot base = m.without slot base := by
  obtain ⟨herrors, hframes, hpending⟩ := hi.without hp
  obtain ⟨inner, rfl⟩ := hp
  simp only [Piece.without] at herrors hframes hpending
  simp only [Moment.without, graft, State.graft, List.filter_append, herrors, hframes, hpending,
    List.append_nil, Json.fill_append_fill]

/-! ## Moves -/

/-- What is left of a move that is not about the slot only: work on a slot that is gone is left out,
other work contributes what is left of its piece, and otherwise the tasks that are left are
drained. -/
inductive Advances (setting : Setting W O C T) (world : W) (slot : Path) (q : Moment W O C T) :
    Moment W O C T → Prop
  | skip {work : Work W O C T} {rest : Moment W O C T} (hn : q.next? = some (work, rest))
    (hd : q.state.data.at? work.path = none) : Advances setting world slot q rest
  | graft {work : Work W O C T} {rest : Moment W O C T} (hn : q.next? = some (work, rest))
    (hd : (q.state.data.at? work.path).isSome) :
    Advances setting world slot q
      (rest.graft work.path ((work.piece setting world).1.without slot work.path, q.state.world))
  | drain {fuel : Nat} {outcomes : List (Outcome O C T)} (hn : q.next? = none)
    (hp : q.state.pending ≠ [])
    (ho : List.Forall₂ (fun pending outcome =>
      Polling.await setting.host.poll world fuel pending.task = some outcome)
        q.state.pending outcomes) :
    Advances setting world slot q { q.drained outcomes q.state.world with steps := 0 }

section
variable {setting : Setting W O C T} {root : Node (Definition W O C T)} {world base : W}
  {past : List (Moment W O C T)} {m m' : Moment W O C T} {slot : Path}

/-- The tasks that are left have the outcomes that are left. -/
theorem zip_filter_avoids (slot : Path) {fuel : Nat} {pending : List (Pending W O C T)}
    {outcomes : List (Outcome O C T)}
    (ho : List.Forall₂ (fun pending outcome =>
      Polling.await setting.host.poll world fuel pending.task = some outcome) pending outcomes) :
    ∃ left, (pending.zip outcomes).filter (fun due => slot.avoids due.1.path)
        = (pending.filter fun pending => slot.avoids pending.path).zip left
      ∧ List.Forall₂ (fun pending outcome =>
        Polling.await setting.host.poll world fuel pending.task = some outcome)
          (pending.filter fun pending => slot.avoids pending.path) left := by
  induction ho with
  | nil => exact ⟨[], rfl, .nil⟩
  | @cons first outcome rest outcomes hfirst _ ih =>
    obtain ⟨left, hl, hf⟩ := ih
    rw [List.zip_cons_cons, List.filter_cons, List.filter_cons, hl]
    cases slot.avoids first.path with
    | true => exact ⟨outcome :: left, rfl, .cons hfirst hf⟩
    | false => exact ⟨left, rfl, hf⟩

/-- Draining the tasks leaves nothing of it, or drains the tasks that are left. -/
theorem advances_drained {fuel : Nat} {outcomes : List (Outcome O C T)} {after : W}
    (hn : m.next? = none)
    (ho : List.Forall₂ (fun pending outcome =>
      Polling.await setting.host.poll world fuel pending.task = some outcome)
        m.state.pending outcomes) :
    (m.drained outcomes after).without slot base = m.without slot base
      ∨ Advances setting world slot (m.without slot base)
        ((m.drained outcomes after).without slot base) := by
  obtain ⟨left, hl, hf⟩ := zip_filter_avoids slot ho
  obtain ⟨hdue, hfrontier⟩ := next?_eq_none hn
  by_cases hp : (m.state.pending.filter fun pending => slot.avoids pending.path) = []
  · left
    rw [hp, List.zip_nil_left] at hl
    simp only [Moment.without, drained, hl, hdue, hp, List.filter_nil]
  · right
    have hstep : Advances setting world slot (m.without slot base)
        { (m.without slot base).drained left base with steps := 0 } :=
      .drain (next?_without_eq_none hn) hp hf
    have he : (m.drained outcomes after).without slot base
        = { (m.without slot base).drained left base with steps := 0 } := by
      simp only [Moment.without, drained, hl, List.filter_nil]
    exact he ▸ hstep

/-- The next work of what is left is the next work of the moment, and does not lie within the
slot. -/
def NextIsLeft (slot : Path) (base : W) (m : Moment W O C T) : Prop :=
  ∀ {work left}, (m.without slot base).next? = some (work, left) →
    ¬ slot <+: work.path ∧ ∃ rest, m.next? = some (work, rest)

/-- A move leaves what is left as it is, or advances it by the work that it does. -/
theorem Sound.advances (h : SideEffectFree setting root world)
    (hc : setting.host.cancelled world = false) (hk : root.KeysDistinct)
    (hs : Sound setting root past m) (hq : Quiet world m) (slot : Path) (base : W)
    (hm : Move setting m m') :
    m'.without slot base = m.without slot base
      ∨ Advances setting world slot (m.without slot base) (m'.without slot base)
        ∧ NextIsLeft slot base m := by
  have hdone : ∀ {work rest}, m.next? = some (work, rest) → ¬ slot <+: work.path →
      NextIsLeft slot base m := by
    intro work rest hn hw other left ho
    rw [next?_without hn hw] at ho
    cases ho
    exact ⟨hw, rest, hn⟩
  cases hs.effect hk hm with
  | @skip work rest hn hd =>
    by_cases hw : slot <+: work.path
    · exact .inl (without_next_of_within hn hw)
    · refine .inr ⟨.skip (next?_without hn hw) ?_, hdone hn hw⟩
      rw [← Option.not_isSome_iff_eq_none, isSome_at?_without hw, hd]
      simp
  | @graft work rest hn hd =>
    have hlive : (rest.state.data.at? work.path).isSome := by
      rw [data_next hn, hd]
      rfl
    by_cases hw : slot <+: work.path
    · left
      have hkeys := hs.keys_next hk hn
      have hinside := (work.tidy_piece hkeys m.state.world).inside
        fun _ he => Work.labelled_piece he
      rw [without_graft_of_within hw hinside, without_next_of_within hn hw]
    · right
      rw [hq.world_eq, without_graft hw hlive]
      refine ⟨.graft (next?_without hn hw) ?_, hdone hn hw⟩
      rwa [isSome_at?_without hw, ← data_next hn]
  | drain hn hp hstop hd =>
    refine (advances_drained hn (drain_eq_some h hc hq.world_eq hp hd).2).imp_right fun ha =>
      ⟨ha, fun {work left} ho => ?_⟩
    rw [next?_without_eq_none hn] at ho
    cases ho

end

end Execution

end QueryEngine
