import QueryEngine.Proofs.Execution.Course
import QueryEngine.Proofs.Execution.Settle

/-!
# Where an execution ends

In an execution without side effects every open slot has an answer of the interpreter, or none ever.
What settling the open work with these answers makes of the data is the same before and after every
move (`Outlook.move`), so it is what the execution ends with. If everything that is open after a
move has an answer, so has everything before it (`Answerable.of_move`).
-/

namespace QueryEngine.Execution

open Moment

variable {W O C T : Type} {setting : Setting W O C T} {root : Node (Definition W O C T)}
  {world : W}

/-- The interpreter has an answer to the work, at some depth. -/
def Answered (setting : Setting W O C T) (world : W) (work : Work W O C T) (a : Answer) : Prop :=
  ∃ depth, answer setting world depth work = some a

/-- Some depth is enough for all work of a list. -/
theorem exists_depth {works : List (Work W O C T)}
    (h : ∀ work ∈ works, ∃ a, Answered setting world work a) :
    ∃ depth, ∀ work ∈ works, (answer setting world depth work).isSome := by
  induction works with
  | nil => exact ⟨0, fun _ h => by cases h⟩
  | cons work rest ih =>
    obtain ⟨d, hd⟩ := ih fun other ho => h other (List.mem_cons_of_mem _ ho)
    obtain ⟨a, e, ha⟩ := h work (List.mem_cons_self ..)
    refine ⟨max d e, ?_⟩
    intro other ho
    rcases List.mem_cons.1 ho with rfl | ho
    · exact Option.isSome_iff_exists.2 ⟨a, answer_mono (Nat.le_max_right d e) ha⟩
    · obtain ⟨b, hb⟩ := Option.isSome_iff_exists.1 (hd other ho)
      exact Option.isSome_iff_exists.2 ⟨b, answer_mono (Nat.le_max_left d e) hb⟩

/-- Work that is next is opened by the interpreter one level down. -/
theorem answer_next {m rest : Moment W O C T} {work : Work W O C T}
    (hn : m.next? = some (work, rest)) (depth : Nat) :
    answer setting world (depth + 1) work = opened setting world (answer setting world depth) work
      := by
  rcases next?_eq_some hn with ⟨_, _, rfl, _⟩ | ⟨_, rfl, _⟩ <;> rfl

/-- What is answered for a task is answered for its outcome. -/
theorem answered_outcome {pending : Pending W O C T} {outcome : Outcome O C T} {fuel : Nat}
    (ho : Polling.await setting.host.poll world fuel pending.task = some outcome) {a : Answer} :
    Answered setting world (.task pending) a ↔ Answered setting world (.outcome pending outcome) a
      := by
  constructor
  · rintro ⟨_ | depth, ha⟩
    · cases ha
    · obtain ⟨result, hr, ha⟩ := Option.bind_eq_some_iff.1 ha
      have hr := Polling.await_mono hr (Nat.le_max_left (depth + 1) fuel)
      have ho := Polling.await_mono ho (Nat.le_max_right (depth + 1) fuel)
      obtain rfl := Option.some.inj (hr.symm.trans ho)
      exact ⟨depth + 1, ha⟩
  · rintro ⟨_ | depth, ha⟩
    · cases ha
    · have ho := Polling.await_mono ho (Nat.le_add_left fuel (depth + 1))
      refine ⟨depth + fuel + 1, Option.bind_eq_some_iff.2 ⟨outcome, ?_, ?_⟩⟩
      · rwa [Nat.add_right_comm] at ho
      · exact answerOutcome_mono (fun _ _ => answer_mono (Nat.le_add_right depth fuel)) ha

/-! ## One move -/

/-- Work whose slots are marked lies apart where its slots exist. -/
theorem loose_of_marked {data : Json} {lost : Path → Prop} {works : List (Work W O C T)}
    {marks : List Mark} (h : Marked data lost (works.map Work.mark ++ marks))
    (hl : ∀ work ∈ works, ¬ lost work.path) : Loose data works := by
  have hap : ∀ {work : Work W O C T} {others : List Mark},
      Marked data lost (work.mark :: others) → ¬ lost work.path → (data.at? work.path).isSome →
        ∀ mark ∈ others, Path.Apart work.path mark.1 := by
    intro work others h hl hd mark hm
    have he : work.mark = (work.path, work.mark.2) := Prod.ext work.mark_fst rfl
    rw [he] at h
    exact h.apart hd hl hm
  induction works with
  | nil => exact .nil
  | cons work rest ih =>
    have hl' := hl work (List.mem_cons_self ..)
    have he : work.mark = (work.path, work.mark.2) := Prod.ext work.mark_fst rfl
    have hdrop : Marked data lost (rest.map Work.mark ++ marks) :=
      Marked.drop (by rw [← he]; exact h) hl'
    refine .cons (fun other ho hlive => ?_) (ih hdrop fun other ho =>
      hl other (List.mem_cons_of_mem _ ho))
    rcases hlive with hd | hd
    · have := hap h hl' hd other.mark (List.mem_append_left _ (List.mem_map_of_mem ho))
      simpa using this
    · obtain ⟨before, after, rfl⟩ := List.append_of_mem ho
      have hperm : (List.map Work.mark (work :: (before ++ other :: after)) ++ marks).Perm
          (other.mark ::
            (work.mark :: (before.map Work.mark ++ after.map Work.mark) ++ marks)) := by
        simp only [List.map_cons, List.map_append, List.cons_append, List.append_assoc]
        exact (List.Perm.cons _ List.perm_middle).trans (.swap ..)
      have := hap (h.perm hperm) (hl other (List.mem_cons_of_mem _ ho)) hd work.mark (by simp)
      exact (by simpa using this : Path.Apart other.path work.path).symm

/-- At each moment the slots of open work lie apart where they exist. -/
theorem Sound.loose {past : List (Moment W O C T)} {m : Moment W O C T}
    (h : Sound setting root past m) : Loose m.state.data m.works :=
  loose_of_marked (h.marked.perm List.perm_append_comm) fun _ hw => h.not_nulled hw

/-- What settling the open work of a moment makes of its data, and the errors that there are then:
all of them unless an object is null because a field failed it, and those that lead to slots of the
data in any case. -/
def Outlook (setting : Setting W O C T) (world : W) (m : Moment W O C T) (final : Json)
    (errors : List ResponseError) (nulled : Bool) : Prop :=
  ∃ owed lost, Settles (Answered setting world) m.state.data m.works final owed lost
    ∧ (nulled = false → lost = false ∧ (m.state.errors ++ owed).Perm errors)
    ∧ ((m.state.errors ++ owed).filter (leadsTo final)).Perm (errors.filter (leadsTo final))

/-- Draining tasks does not change what settling them comes to. -/
theorem settles_outcomes {fuel : Nat} {pending : List (Pending W O C T)}
    {outcomes : List (Outcome O C T)}
    (h : List.Forall₂ (fun pending outcome =>
      Polling.await setting.host.poll world fuel pending.task = some outcome) pending outcomes)
    {data final : Json} {owed : List ResponseError} {lost : Bool}
    (hset : Settles (Answered setting world) data (pending.map .task) final owed lost) :
    Settles (Answered setting world) data
      ((pending.zip outcomes).map fun (pending, outcome) => .outcome pending outcome) final owed
      lost := by
  induction h generalizing data owed lost with
  | nil => exact hset
  | cons hawait _ ih =>
    cases hset with
    | gone hg hset => exact .gone hg (ih hset)
    | fill hlive ha hset => exact .fill hlive ((answered_outcome hawait).1 ha) (ih hset)

section
variable {past : List (Moment W O C T)} {m m' rest : Moment W O C T} {work : Work W O C T}
  {final : Json} {errors : List ResponseError} {nulled : Bool}

/-- Work on a slot that is gone is left out. -/
theorem Outlook.skip (ho : Outlook setting world m final errors nulled)
    (hn : m.next? = some (work, rest)) (hd : m.state.data.at? work.path = none) :
    Outlook setting world rest final errors nulled := by
  obtain ⟨owed, lost, hset, herr, hleads⟩ := ho
  rw [works_next hn] at hset
  cases hset with
  | gone _ hset =>
    refine ⟨owed, lost, ?_, ?_, ?_⟩
    · rw [data_next hn]
      exact hset
    · rw [errors_next hn]
      exact herr
    · rw [errors_next hn]
      exact hleads
  | fill hlive => simp [hd] at hlive

/-- Work on a slot that exists: its piece and what it leaves come to the answer to it. -/
theorem Outlook.graft (ho : Outlook setting world m final errors nulled)
    (hn : m.next? = some (work, rest)) (hd : (m.state.data.at? work.path).isSome)
    (hcomplete : ∀ depth a, opened setting world (answer setting world depth) work = some a →
      Completes (fun work a => answer setting world depth work = some a) work.path
        (work.piece setting world).1 a)
    (hloose : Loose (rest.graft work.path (work.piece setting world)).state.data
      (rest.graft work.path (work.piece setting world)).works)
    (hap : ∀ other ∈ rest.works, Path.Apart work.path other.path) :
    Outlook setting world (rest.graft work.path (work.piece setting world)) final errors nulled
      := by
  obtain ⟨owed, lost, hset, herr, hleads⟩ := ho
  rw [works_next hn] at hset
  cases hset with
  | gone hgone => simp [hgone] at hd
  | @fill _ _ _ _ owed lost a hlive ha hset =>
    obtain ⟨_ | depth, ha⟩ := ha
    · cases ha
    rw [answer_next hn] at ha
    -- Nothing that is settled later touches the slot.
    have hfinal : final.at? work.path = some a.value := by
      rw [hset.at?_eq fun other ho => (hap other ho).symm, Json.at?_fill_self hlive]
    obtain ⟨own, gone, hpiece, hown, hpleads⟩ := hcomplete depth a ha _ hlive
    have hpleads := hpleads final hfinal
    have hpiece : Settles (Answered setting world) _ _ _ own gone :=
      hpiece.mono fun _ _ ha => ⟨depth, ha⟩
    have hperm := (works_graft rest work.path (work.piece setting world)).trans
      List.perm_append_comm
    have hboth := hpiece.append hset
    rw [← data_next hn] at hboth
    obtain ⟨owed', hp, hboth⟩ := hboth.perm (hloose.perm hperm) hperm.symm
    have hmove : ((rest.state.errors ++ (work.piece setting world).1.errors) ++ owed').Perm
        (m.state.errors ++ (((work.piece setting world).1.errors ++ own) ++ owed)) := by
      rw [errors_next hn, List.append_assoc, List.append_assoc]
      exact .append_left _ (.append_left _ hp.symm)
    refine ⟨owed', gone || lost, hboth, ?_, ?_⟩
    · intro hnull
      obtain ⟨hlost, herr⟩ := herr hnull
      rw [Bool.or_eq_false_iff] at hlost
      obtain ⟨hgone, hown⟩ := hown hlost.1
      refine ⟨by rw [hgone, hlost.2]; rfl, ?_⟩
      exact hmove.trans ((List.Perm.append_left _ (hown.append_right _)).trans herr)
    · refine (hmove.filter _).trans (List.Perm.trans ?_ hleads)
      simp only [List.filter_append] at hpleads ⊢
      exact .append_left _ (hpleads.append_right _)

variable (h : SideEffectFree setting root world) (hc : setting.host.cancelled world = false)
  (hk : root.KeysDistinct) (hs : Sound setting root past m) (hq : Quiet world m)
include h hc hk hs hq

/-- A move does not change where an execution ends. -/
theorem Outlook.move (ho : Outlook setting world m final errors nulled)
    (hm : Move setting m m') : Outlook setting world m' final errors nulled := by
  have hloose := (hs.move hk hm).loose
  cases hs.effect hk hm with
  | skip hn hd => exact ho.skip hn hd
  | @graft work rest hn hd =>
    rw [hq.world_eq] at hloose ⊢
    refine ho.graft hn (by simp [hd]) (fun depth a ha => ?_) hloose
      fun other hother => hs.apart_work hn (by simp [hd]) hother
    have hw := mem_works_next hn
    exact completes_piece h (hs.within work hw) (hq.keeps work hw) (hs.keys_next hk hn) ha
  | drain hn hp hstop hd =>
    obtain ⟨-, houtcomes⟩ := drain_eq_some h hc hq.world_eq hp hd
    obtain ⟨owed, lost, hset, herr, hleads⟩ := ho
    rw [works_of_next?_eq_none hn] at hset
    refine ⟨owed, lost, ?_, herr, hleads⟩
    rw [works_drained hn]
    exact settles_outcomes houtcomes hset

omit h hc hq in
/-- What is left by work that does not fail exists after it. -/
theorem isSome_at?_left (hn : m.next? = some (work, rest))
    (hd : (m.state.data.at? work.path).isSome) (hf : work.fails setting world = false)
    {left : Work W O C T} (hl : left ∈ (work.piece setting world).1.works) :
    ((rest.graft work.path (work.piece setting world)).state.data.at? left.path).isSome := by
  have hkeys := hs.keys_next hk hn
  obtain ⟨tail, ht, hv | ⟨hfails, -⟩⟩ :=
    (work.tidy_piece hkeys world).holds _ (Piece.mark_mem_marks hl)
  · rw [Work.mark_fst] at ht
    rw [graft_state, State.graft_data, data_next hn, ht, Json.at?_fill_append hd, hv]
    rfl
  · simp [hf] at hfails

omit h hc hk hq in
/-- Other work exists after a move if it existed before it. -/
theorem at?_graft_of_mem (hn : m.next? = some (work, rest))
    (hd : (m.state.data.at? work.path).isSome) {other : Work W O C T} (ho : other ∈ rest.works) :
    (rest.graft work.path (work.piece setting world)).state.data.at? other.path
      = m.state.data.at? other.path := by
  rw [graft_state, State.graft_data, data_next hn,
    Json.at?_fill_of_apart (hs.apart_work hn hd ho)]

end

/-! ## Answers to everything that is open -/

/-- The interpreter has an answer to all work on slots that exist. -/
def Answerable (setting : Setting W O C T) (world : W) (m : Moment W O C T) : Prop :=
  ∀ work ∈ m.works, (m.state.data.at? work.path).isSome → ∃ a, Answered setting world work a

section
variable {past : List (Moment W O C T)} {m m' rest : Moment W O C T} {work : Work W O C T}

/-- Where everything is answerable without some work on a slot that is gone, it is with it. -/
theorem Answerable.of_skip (ha : Answerable setting world rest)
    (hn : m.next? = some (work, rest)) (hd : m.state.data.at? work.path = none) :
    Answerable setting world m := by
  intro other ho hlive
  rw [works_next hn] at ho
  rcases List.mem_cons.1 ho with rfl | ho
  · simp [hd] at hlive
  · exact ha other ho (by rwa [data_next hn])

/-- Where everything is answerable once tasks are drained, the tasks have the answers to their
outcomes. -/
theorem Answerable.of_drain {outcomes : List (Outcome O C T)} {after : W}
    (ha : Answerable setting world (m.drained outcomes after)) (hn : m.next? = none) {fuel : Nat}
    (ho : List.Forall₂ (fun pending outcome =>
      Polling.await setting.host.poll world fuel pending.task = some outcome)
        m.state.pending outcomes) : Answerable setting world m := by
  intro other hmem hlive
  rw [works_of_next?_eq_none hn] at hmem
  obtain ⟨pending, hp, rfl⟩ := List.mem_map.1 hmem
  obtain ⟨outcome, hzip⟩ : ∃ outcome, (pending, outcome) ∈ m.state.pending.zip outcomes := by
    have hfst := List.map_fst_zip (Nat.le_of_eq ho.length_eq)
    rw [← hfst] at hp
    obtain ⟨d, hd, rfl⟩ := List.mem_map.1 hp
    exact ⟨d.2, hd⟩
  obtain ⟨a, hans⟩ := ha (.outcome pending outcome)
    (by rw [works_drained hn]; exact List.mem_map.2 ⟨_, hzip, rfl⟩) hlive
  exact ⟨a, (answered_outcome (List.forall₂_zip ho hzip)).2 hans⟩

variable (h : SideEffectFree setting root world) (hc : setting.host.cancelled world = false)
  (hk : root.KeysDistinct) (hs : Sound setting root past m) (hq : Quiet world m)
include h hk hs hq

/-- Where everything is answerable once the piece of some work is grafted, the work has an answer
too. -/
theorem Answerable.of_graft
    (ha : Answerable setting world (rest.graft work.path (work.piece setting world)))
    (hn : m.next? = some (work, rest)) (hd : (m.state.data.at? work.path).isSome) :
    Answerable setting world m := by
  have hmem := works_graft rest work.path (work.piece setting world)
  intro other ho hlive
  rw [works_next hn] at ho
  rcases List.mem_cons.1 ho with rfl | ho
  · -- The work itself: it failed, or what it left has answers.
    have hw := mem_works_next hn
    obtain ⟨depth, hdepth⟩ : ∃ depth, other.fails setting world = false →
        ∀ left ∈ (other.piece setting world).1.works,
          (answer setting world depth left).isSome := by
      cases hf : other.fails setting world with
      | true => exact ⟨0, nofun⟩
      | false =>
        obtain ⟨depth, hdepth⟩ := exists_depth fun left hl =>
          ha left (hmem.mem_iff.2 (List.mem_append_right _ hl))
            (isSome_at?_left hk hs hn hd hf hl)
        exact ⟨depth, fun _ => hdepth⟩
    obtain ⟨a, hopened⟩ := Option.isSome_iff_exists.1
      ((isSome_opened h (hs.within other hw) (hq.keeps other hw)).2 hdepth)
    exact ⟨a, depth + 1, by rw [answer_next hn]; exact hopened⟩
  · refine ha other (hmem.mem_iff.2 (List.mem_append_left _ ho)) ?_
    rwa [at?_graft_of_mem hs hn hd ho]

include hc

/-- If everything open after a move has an answer, so has everything before it. -/
theorem Answerable.of_move (hm : Move setting m m') (ha : Answerable setting world m') :
    Answerable setting world m := by
  cases hs.effect hk hm with
  | skip hn hd => exact ha.of_skip hn hd
  | graft hn hd =>
    rw [hq.world_eq] at ha
    exact ha.of_graft h hk hs hq hn (by simp [hd])
  | drain hn hp hstop hd =>
    exact ha.of_drain hn (drain_eq_some h hc hq.world_eq hp hd).2

end

end QueryEngine.Execution
