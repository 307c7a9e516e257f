import QueryEngine.Proofs.Memo.Refines

/-!
# Discipline at a memo

Every history is one of events at desks (`History.leads`): a poll of a lookup is its turn, what
happens while it computes, and the end of its computation, as far as the poll gets
(`Refines.leads_poll`). So the notes of every history are in order, what is kept is what a
computation came to, no lookup is forgotten, and what happens at one key happens as well when there
are lookups of no other (`History.disciplined`).
-/

namespace QueryEngine.Memo

variable {W E V : Type}

/-! ## Histories and events -/

/-- The event may happen while lookups are busy, if computations have outcomes where one starts. -/
def Event.Possible (busy : List Nat) : Event E V → Prop
  | .turn lookup => lookup ∉ busy ∧ Nonempty (Except E V)
  | .finish lookup _ | .drop lookup => lookup ∉ busy
  | .release => busy = []

/-- What may happen while a lookup is busy may happen while it is not. -/
theorem Event.Possible.of_cons {busy : List Nat} {lookup : Nat} {event : Event E V}
    (h : event.Possible (lookup :: busy)) : event.Possible busy := by
  cases event with
  | turn other => exact ⟨fun hm => h.1 (List.mem_cons_of_mem _ hm), h.2⟩
  | finish other outcome => exact fun hm => h (List.mem_cons_of_mem _ hm)
  | drop other => exact fun hm => h (List.mem_cons_of_mem _ hm)
  | release => cases h

/-- Events happen to other lookups than those that are busy. -/
theorem Event.Possible.standing_act {busy : List Nat} {lookup : Nat} {event : Event E V}
    (h : event.Possible busy) (hl : lookup ∈ busy) (keys : Nat → String) (desks : Desks E V) :
    (desks.act keys event).standing lookup = desks.standing lookup := by
  have hput : ∀ {other : Nat} {visit : Visit E V}, other ∉ busy →
      (desks.put keys other visit).standing lookup = desks.standing lookup := by
    intro other visit ho
    have hne : lookup ≠ other := fun he => ho (he ▸ hl)
    simp [Desks.put, hne]
  cases event with
  | turn other => exact hput h.1
  | finish other outcome => exact hput h
  | drop other => exact hput h
  | release =>
    obtain rfl : busy = [] := h
    cases hl

/-- Events lead from the desks to desks that the scene refines. -/
def Leads (place : Place W V) (keys : Nat → String) (busy : List Nat) (desks : Desks E V)
    (scene : Scene W E V) : Prop :=
  ∃ events : List (Event E V), (∀ event ∈ events, event.Possible busy)
    ∧ Refines place keys scene (events.foldl (Desks.act keys) desks)

section
variable {place : Place W V} {keys : Nat → String} {busy : List Nat} {desks : Desks E V}
  {scene scene' : Scene W E V} {lookup : Nat}

/-- A scene that refines the desks is led to by no event at all. -/
theorem Refines.leads (h : Refines place keys scene desks) : Leads place keys busy desks scene :=
  ⟨[], fun _ he => absurd he List.not_mem_nil, h⟩

/-- Events after events are events. -/
theorem Leads.trans (h : Leads place keys busy desks scene)
    (h' : ∀ desks, Refines place keys scene desks → Leads place keys busy desks scene') :
    Leads place keys busy desks scene' := by
  obtain ⟨events, hp, hr⟩ := h
  obtain ⟨others, hp', hr'⟩ := h' _ hr
  refine ⟨events ++ others, fun event he => ?_, by rwa [List.foldl_append]⟩
  exact (List.mem_append.1 he).elim (hp event) (hp' event)

/-- One event, and what follows it. -/
theorem Leads.cons {event : Event E V} (he : event.Possible busy)
    (h : Leads place keys busy (desks.act keys event) scene) :
    Leads place keys busy desks scene := by
  obtain ⟨events, hp, hr⟩ := h
  exact ⟨event :: events, List.forall_mem_cons.2 ⟨he, hp⟩, hr⟩

/-- What happens while a lookup is polled leaves that lookup as it is. -/
theorem Leads.spares (h : Leads place keys (lookup :: busy) desks scene) :
    ∃ after, Refines place keys scene after ∧ after.standing lookup = desks.standing lookup
      ∧ ∀ last, Leads place keys busy after last → Leads place keys busy desks last := by
  obtain ⟨events, hp, hr⟩ := h
  refine ⟨_, hr, ?_, fun last hl => ?_⟩
  · clear hr
    induction events generalizing desks with
    | nil => rfl
    | cons event rest ih =>
      obtain ⟨hevent, hrest⟩ := List.forall_mem_cons.1 hp
      rw [List.foldl_cons, ih hrest, hevent.standing_act (List.mem_cons_self ..)]
  · obtain ⟨others, hp', hr'⟩ := hl
    refine ⟨events ++ others, fun event he => ?_, by rwa [List.foldl_append]⟩
    exact (List.mem_append.1 he).elim (fun he => (hp event he).of_cons) (hp' event)

/-! ## Polls -/

section
variable (hp : ∀ memo world, place.get (place.set memo world) = memo) (hb : lookup ∉ busy)
  {computation : Computation (Scene W E V) E V}

/-- The computation does what other lookups may do. -/
def Meanwhile (place : Place W V) (keys : Nat → String) (busy : List Nat)
    (act : Scene W E V → Scene W E V) : Prop :=
  ∀ scene desks, Refines place keys scene desks → Leads place keys busy desks (act scene)

/-- To record a lookup that finishes is to note the outcome of its computation, and its end. -/
theorem record_finish (place : Place W V) (key : String) (lookup : Nat)
    (computation : Computation (Scene W E V) E V) (scene : Scene W E V) :
    Scene.record lookup
        (Memo.finish (Scene.memoPlace place) key (Scene.noting lookup computation) scene)
      = (computation.finish scene).2.finished place key lookup (computation.finish scene).1 := by
  unfold Memo.finish
  rcases hf : computation.finish scene with ⟨outcome, after⟩
  have hnoting : (Scene.noting lookup computation).finish scene
      = (outcome, after.note (.computed lookup outcome)) := by
    simp [Scene.noting, hf]
  rw [hnoting]
  cases outcome <;>
    simp [Scene.record, Scene.finished, Scene.note, Scene.memoPlace, List.append_assoc]

include hp hb

/-- The end of a computation. -/
theorem Refines.leads_finish (h : Refines place keys scene desks)
    (hc : desks.standing lookup = .computing)
    (hf : Meanwhile place keys (lookup :: busy) fun scene => (computation.finish scene).2) :
    Leads place keys busy desks (Scene.record lookup (Memo.finish (Scene.memoPlace place)
      (keys lookup) (Scene.noting lookup computation) scene)) := by
  obtain ⟨after, hafter, hs, hlast⟩ := (hf scene desks h).spares
  have hevent : (Event.finish lookup (computation.finish scene).1).Possible busy := hb
  rw [record_finish]
  exact hlast _ (.cons hevent (hafter.finish hp (hs.trans hc) _).leads)

variable (hs : Meanwhile place keys (lookup :: busy) computation.start)
  (hr : Meanwhile place keys (lookup :: busy) computation.resume)
  (hf : Meanwhile place keys (lookup :: busy) fun scene => (computation.finish scene).2)

include hs hf in
/-- The start of a computation, and its end if it is not pending. -/
theorem Refines.leads_start
    (h : Refines place keys (scene.begin lookup computation.polls) desks) :
    Leads place keys busy desks (Scene.record lookup (Memo.start (Scene.memoPlace place)
      (keys lookup) (Scene.noting lookup computation) scene)) := by
  have hc : desks.standing lookup = .computing := by
    simp [h.standing, Scene.begin, Standing.ofPhase]
  obtain ⟨after, hafter, hstanding, hlast⟩ := (hs _ desks h).spares
  refine hlast _ ?_
  show Leads place keys busy after (Scene.record lookup
    (if computation.polls = 0 then
      Memo.finish (Scene.memoPlace place) (keys lookup) (Scene.noting lookup computation)
        (computation.start (scene.begin lookup computation.polls))
    else (.waiting (.computing computation.polls),
      computation.start (scene.begin lookup computation.polls))))
  split
  · exact hafter.leads_finish hp hb (hstanding.trans hc) hf
  · exact (hafter.resume (hstanding.trans hc) _).leads

include hs hf in
/-- A turn, and what it leads to. -/
theorem Refines.leads_take {turn : MemoTurn V} {ticket : Nat}
    (h : Refines place keys (Scene.taken lookup computation.polls (turn, ticket, scene)) desks) :
    Leads place keys busy desks (Scene.record lookup (Memo.take (Scene.memoPlace place)
      (keys lookup) (Scene.noting lookup computation) turn ticket scene)) := by
  cases turn with
  | answer value => exact h.leads
  | compute => exact h.leads_start hp hb hs hf
  | wait => exact h.leads

include hs hr hf

/-- A poll of a lookup is its turn and the end of its computation, as far as it gets, with what
happens meanwhile. -/
theorem Refines.leads_poll (h : Refines place keys scene desks) {phase : LookupPhase}
    (hphase : scene.phase? lookup = some phase) :
    Leads place keys busy desks
      (scene.poll place (keys lookup) lookup computation phase).2 := by
  have hevent : (Event.turn lookup : Event E V).Possible busy :=
    ⟨hb, ⟨(computation.finish scene).1⟩⟩
  cases phase with
  | fresh =>
    exact .cons hevent ((h.turn_fresh hp hphase computation.polls).leads_take hp hb hs hf)
  | waiting ticket =>
    exact .cons hevent ((h.turn_waiting hphase computation.polls).leads_take hp hb hs hf)
  | computing polls =>
    have hc : desks.standing lookup = .computing := by rw [h.standing, hphase, Standing.ofPhase]
    obtain ⟨after, hafter, hstanding, hlast⟩ := (hr _ desks h).spares
    refine hlast _ ?_
    show Leads place keys busy after (Scene.record lookup
      (if polls ≤ 1 then
        Memo.finish (Scene.memoPlace place) (keys lookup) (Scene.noting lookup computation)
          (computation.resume scene)
      else (.waiting (.computing (polls - 1)), computation.resume scene)))
    split
    · exact hafter.leads_finish hp hb (hstanding.trans hc) hf
    · exact (hafter.resume (hstanding.trans hc) _).leads

end

/-- Every history is one of events. -/
theorem History.leads (hp : ∀ memo world, place.get (place.set memo world) = memo)
    (h : History place keys busy scene scene') (hr : Refines place keys scene desks) :
    Leads place keys busy desks scene' := by
  induction h generalizing desks with
  | refl busy scene => exact hr.leads
  | trans _ _ ih ih' => exact (ih hr).trans fun _ hr => ih' hr
  | elsewhere hw =>
    refine Refines.leads ⟨hr.orderly, hr.standing, hr.notes, ?_, ?_⟩
    · rw [hw]
      exact hr.served
    · rw [hw]
      exact hr.bounded
  | poll hb hphase _ _ _ ihs ihr ihf =>
    exact hr.leads_poll hp hb (fun scene _ h => ihs scene h) (fun scene _ h => ihr scene h)
      (fun scene _ h => ihf scene h) hphase
  | drain _ hd ih =>
    exact Polling.drain_leads (r := fun scene scene' => ∀ desks, Refines place keys scene desks →
      Leads place keys _ desks scene') (fun _ _ h => h.leads)
      (fun h h' desks hr => (h desks hr).trans h') (fun task scene _ h => ih task scene h) hd _ hr
  | @drop busy scene lookup phase hb hphase =>
    have hevent : (Event.drop lookup : Event E V).Possible busy := hb
    exact .cons hevent (hr.drop hp hphase).leads
  | release =>
    have hevent : (Event.release : Event E V).Possible [] := rfl
    exact .cons hevent (hr.release hp).leads

end

/-! ## One key alone -/

section
variable {keys : Nat → String} {desks : Desks E V} {scene : Scene (Memo V) E V} {lookup : Nat}

/-- A lookup without side effects is polled in a memo alone. -/
theorem history_poll (keys : Nat → String) {phase : LookupPhase}
    (hphase : scene.phase? lookup = some phase) (polls : Nat) (outcome : Except E V) :
    History whole keys [] scene
      (scene.poll whole (keys lookup) lookup (Scene.lift (.settled polls outcome)) phase).2 :=
  .poll List.not_mem_nil hphase (fun scene => .refl _ scene) (fun scene => .refl _ scene)
    fun scene => .refl _ scene

/-- Computations end with their next poll. -/
def Prompt (phase? : Nat → Option LookupPhase) : Prop :=
  ∀ lookup polls, phase? lookup = some (.computing polls) → polls ≤ 1

/-- Computations that end with their next poll may be joined by another one that does. -/
theorem Prompt.update {phase? : Nat → Option LookupPhase} (h : Prompt phase?)
    {new : Option LookupPhase} (hn : ∀ polls, new = some (.computing polls) → polls ≤ 1) :
    Prompt (Function.update phase? lookup new) := by
  intro other polls ho
  by_cases hother : other = lookup
  · subst hother
    exact hn polls (by simpa using ho)
  · exact h other polls (by simpa [hother] using ho)

/-- The poll of a lookup that takes its turn and whose computation is pending once is the turn. -/
theorem record_take (key : String) (lookup : Nat) (outcome : Except E V) (turn : MemoTurn V)
    (ticket : Nat) (scene : Scene (Memo V) E V) :
    Scene.record lookup (Memo.take (Scene.memoPlace whole) key
        (Scene.noting lookup (Scene.lift (.settled 1 outcome))) turn ticket scene)
      = Scene.taken lookup 1 (turn, ticket, scene) := by
  cases turn with
  | answer value => rfl
  | compute =>
    show Scene.record lookup (.waiting (.computing 1), scene.begin lookup 1) = scene.begin lookup 1
    simp [Scene.record, Scene.begin]
  | wait => rfl

/-- All computations still end with their next poll after a turn that takes a single poll. -/
theorem Prompt.taken {turned : MemoTurn V × Nat × Scene (Memo V) E V}
    (h : Prompt turned.2.2.phase?) : Prompt (Scene.taken lookup 1 turned).phase? := by
  obtain ⟨turn, ticket, scene⟩ := turned
  cases turn with
  | answer value => exact h.update (by simp)
  | compute => exact h.update (by simp)
  | wait => exact h.update (by simp)

/-- A lookup takes its turn in a memo alone. -/
theorem exists_history_turn (h : Refines whole keys scene desks) (hprompt : Prompt scene.phase?)
    (lookup : Nat) (outcome : Except E V) :
    ∃ scene', History whole keys [] scene scene'
      ∧ Refines whole keys scene' (desks.act keys (.turn lookup)) ∧ Prompt scene'.phase? := by
  have hs := h.standing lookup
  have hself : (desks.standing lookup = .computing ∨ desks.standing lookup = .ended) →
      desks.act keys (.turn lookup) = desks := by
    rintro (hs | hs) <;> rw [Desks.act, hs, Desk.turn, ← hs, Desks.put_self]
  cases hphase : scene.phase? lookup with
  | none =>
    rw [hself (.inr (by rw [hs, hphase, Standing.ofPhase]))]
    exact ⟨scene, .refl _ scene, h, hprompt⟩
  | some phase =>
    have hpoll := history_poll keys hphase 1 outcome
    cases phase with
    | fresh =>
      have hturn := h.turn_fresh (fun _ _ => rfl) hphase 1
      have htaken : Prompt (Scene.taken lookup 1
          (scene.turn whole (keys lookup) .fresh)).phase? := Prompt.taken hprompt
      rw [Scene.turn, ← record_take (keys lookup) lookup outcome] at hturn htaken
      exact ⟨_, hpoll, hturn, htaken⟩
    | waiting ticket =>
      have hturn := h.turn_waiting hphase 1
      have htaken : Prompt (Scene.taken lookup 1
          (scene.turn whole (keys lookup) (.waiting ticket))).phase? := Prompt.taken hprompt
      rw [Scene.turn, ← record_take (keys lookup) lookup outcome] at hturn htaken
      exact ⟨_, hpoll, hturn, htaken⟩
    | computing polls =>
      rw [hself (.inl (by rw [hs, hphase, Standing.ofPhase]))]
      exact ⟨scene, .refl _ scene, h, hprompt⟩

/-- A computation ends in a memo alone. -/
theorem exists_history_finish (h : Refines whole keys scene desks) (hprompt : Prompt scene.phase?)
    (lookup : Nat) (outcome : Except E V) :
    ∃ scene', History whole keys [] scene scene'
      ∧ Refines whole keys scene' (desks.act keys (.finish lookup outcome))
      ∧ Prompt scene'.phase? := by
  have hs := h.standing lookup
  by_cases hc : desks.standing lookup = .computing
  · obtain ⟨polls, hphase⟩ : ∃ polls, scene.phase? lookup = some (.computing polls) := by
      rw [hs] at hc
      cases hphase : scene.phase? lookup with
      | none => simp [hphase, Standing.ofPhase] at hc
      | some phase => cases phase <;> simp_all [Standing.ofPhase]
    have hpoll := history_poll keys hphase 1 outcome
    have hfinished : (scene.poll whole (keys lookup) lookup (Scene.lift (.settled 1 outcome))
        (.computing polls)).2 = scene.finished whole (keys lookup) lookup outcome := by
      show Scene.record lookup (if polls ≤ 1 then _ else _) = _
      rw [if_pos (hprompt lookup polls hphase), record_finish]
      rfl
    rw [hfinished] at hpoll
    exact ⟨_, hpoll, h.finish (fun _ _ => rfl) hc outcome, hprompt.update (by simp)⟩
  · rw [Desks.act, Desk.finish, if_neg hc, Desks.put_self]
    exact ⟨scene, .refl _ scene, h, hprompt⟩

/-- Every event happens in some history of a memo alone. -/
theorem exists_history_act (h : Refines whole keys scene desks) (hprompt : Prompt scene.phase?)
    {event : Event E V} (he : event.Possible []) :
    ∃ scene', History whole keys [] scene scene'
      ∧ Refines whole keys scene' (desks.act keys event) ∧ Prompt scene'.phase? := by
  cases event with
  | turn lookup =>
    obtain ⟨outcome⟩ := he.2
    exact exists_history_turn h hprompt lookup outcome
  | finish lookup outcome => exact exists_history_finish h hprompt lookup outcome
  | drop lookup =>
    cases hphase : scene.phase? lookup with
    | none =>
      have hs : desks.standing lookup = .ended := by rw [h.standing, hphase, Standing.ofPhase]
      rw [Desks.act, Desk.drop, if_pos hs, Desks.put_self]
      exact ⟨scene, .refl _ scene, h, hprompt⟩
    | some phase =>
      exact ⟨_, .drop List.not_mem_nil hphase, h.drop (fun _ _ => rfl) hphase,
        hprompt.update (by simp)⟩
  | release =>
    refine ⟨_, .release, h.release fun _ _ => rfl, fun lookup polls hr => ?_⟩
    obtain ⟨phase, -, hphase⟩ := Option.bind_eq_some_iff.1 hr
    cases phase <;> cases hphase

/-- An empty memo refines empty desks. -/
theorem refines_empty {place : Place W V} {world : W} (hw : place.get world = {}) :
    Refines place keys { world } ({} : Desks E V) where
  orderly := .empty
  standing lookup := rfl
  notes := rfl
  served key := by
    rw [hw]
    exact .idle
  bounded := by
    rw [hw]
    exact fun key ticket ht => absurd ht List.not_mem_nil

/-- Events happen in some history of a memo alone. -/
theorem exists_history_run (keys : Nat → String) {events : List (Event E V)}
    (he : ∀ event ∈ events, event.Possible []) :
    ∃ scene : Scene (Memo V) E V, History whole keys [] { world := {} } scene
      ∧ Refines whole keys scene (Desks.run keys events) ∧ Prompt scene.phase? := by
  induction events using List.reverseRecOn with
  | nil =>
    exact ⟨_, .refl _ _, refines_empty rfl, fun lookup polls hp => by simp at hp⟩
  | append_singleton events event ih =>
    obtain ⟨hevents, hevent⟩ := List.forall_mem_append.1 he
    obtain ⟨scene, hh, hr, hp⟩ := ih hevents
    obtain ⟨scene', hh', hr', hp'⟩ :=
      exists_history_act hr hp (hevent event (List.mem_singleton_self _))
    refine ⟨scene', hh.trans hh', ?_, hp'⟩
    rwa [Desks.run, List.foldl_append]

end

/-! ## Discipline -/

/-- The lookup computes, or it will be answered or compute when it is polled next. -/
def Scene.Called (place : Place W V) (keys : Nat → String) (scene : Scene W E V) (lookup : Nat) :
    Prop :=
  match scene.phase? lookup with
  | some (.waiting ticket) => (place.get scene.world).turn (keys lookup) ticket ≠ .wait
  | some (.computing _) => True
  | _ => False

/-- What is in order after every history. -/
structure Scene.Disciplined (place : Place W V) (keys : Nat → String) (scene : Scene W E V) :
    Prop where
  /-- Each note was allowed after those before it. -/
  inOrder : InOrder keys scene.notes
  /-- For a key one computation at most is in progress. -/
  single : ∀ lookup other, keys lookup = keys other → Running lookup scene.notes →
    Running other scene.notes → lookup = other
  /-- What is kept is what a computation came to. -/
  kept : ∀ key value, (place.get scene.world).get? key = some value
    ↔ Yields keys key value scene.notes
  /-- Where a lookup waits, some lookup of its key is called. -/
  called : ∀ lookup ticket, scene.phase? lookup = some (.waiting ticket) →
    ∃ other, keys other = keys lookup ∧ scene.Called place keys other
  /-- What happens to the lookups of a key happens as well where no other key is looked up. -/
  apart : ∀ key, ∃ alone : Scene (Memo V) E V, History whole keys [] { world := {} } alone
    ∧ (∀ lookup, keys lookup ≠ key → alone.phase? lookup = some .fresh)
    ∧ alone.notes = scene.notes.filter (Note.isAt keys key)

section
variable {place : Place W V} {keys : Nat → String} {scene : Scene W E V} {desks : Desks E V}

/-- What the memo holds is what some computation is noted to have come to. -/
theorem Refines.get?_eq_iff (h : Refines place keys scene desks) (key : String) (value : V) :
    (place.get scene.world).get? key = some value ↔ Yields keys key value scene.notes := by
  have hserved := h.served key
  rw [h.notes, ← h.orderly.kept, get?]
  generalize (place.get scene.world).cell key = cell at hserved ⊢
  generalize desks.desk key = desk at hserved ⊢
  cases hserved <;> simp

/-- At most one lookup of a key computes. -/
theorem Refines.eq_of_running (h : Refines place keys scene desks) {lookup other : Nat}
    (hk : keys lookup = keys other) (hl : Running lookup scene.notes)
    (ho : Running other scene.notes) : lookup = other := by
  rw [h.notes, h.orderly.running] at hl ho
  have hlined := h.orderly.lined (keys other)
  cases hd : desks.desk (keys other) with
  | kept value =>
    rw [hd] at hlined
    exact absurd ho (hlined other rfl)
  | line lookups =>
    rw [hd] at hlined
    exact Option.some.inj ((hlined.2.2 lookup hk hl).symm.trans (hlined.2.2 other rfl ho))

/-- The value of a key is there for whoever waits, and else the first in line is called. -/
theorem Refines.exists_called (h : Refines place keys scene desks) {lookup ticket : Nat}
    (hphase : scene.phase? lookup = some (.waiting ticket)) :
    ∃ other, keys other = keys lookup ∧ scene.Called place keys other := by
  have hs : desks.standing lookup = .waiting := by rw [h.standing, hphase, Standing.ofPhase]
  have hlined := h.orderly.lined (keys lookup)
  have hserved := h.served (keys lookup)
  generalize hcell : (place.get scene.world).cell (keys lookup) = cell at hserved
  generalize desks.desk (keys lookup) = desk at hlined hserved
  cases hserved with
  | kept value => exact ⟨lookup, rfl, by simp [Scene.Called, hphase, turn, hcell]⟩
  | idle => exact absurd ((hlined.2.1 lookup).2 ⟨rfl, .inl hs⟩) List.not_mem_nil
  | @called first ticket rest tickets hn hf hr =>
    have hkey := ((hlined.2.1 first).1 (List.mem_cons_self ..)).1
    refine ⟨first, hkey, ?_⟩
    rcases hf with hf | ⟨polls, hf⟩
    · simp [Scene.Called, hf, turn, hkey, hcell]
    · simp [Scene.Called, hf]

end

/-- A lookup that stands as a fresh one has the fresh phase. -/
theorem eq_fresh_of_ofPhase {phase? : Option LookupPhase} (h : Standing.fresh = .ofPhase phase?) :
    phase? = some .fresh := by
  cases phase? with
  | none => cases h
  | some phase =>
    cases phase with
    | fresh => rfl
    | waiting ticket => cases h
    | computing polls => cases h

/-- Whatever the history of a memo that began empty, what it leaves is in order. -/
theorem History.disciplined {place : Place W V}
    (hp : ∀ memo world, place.get (place.set memo world) = memo) {keys : Nat → String}
    {world : W} (hw : place.get world = {}) {scene : Scene W E V}
    (h : History place keys [] { world } scene) : scene.Disciplined place keys := by
  obtain ⟨events, he, hr⟩ := h.leads hp (refines_empty hw)
  have hrun : Refines place keys scene (Desks.run keys events) := hr
  refine ⟨hrun.notes ▸ hrun.orderly.inOrder, fun _ _ hk hl ho => hrun.eq_of_running hk hl ho,
    hrun.get?_eq_iff, fun _ _ hphase => hrun.exists_called hphase, fun key => ?_⟩
  have hrestricts := Desks.restricts_run keys key events
  have hat : ∀ event ∈ events.filter (Event.isAt keys key), event.Possible [] :=
    fun event hm => he event (List.mem_of_mem_filter hm)
  obtain ⟨alone, hh, ha, -⟩ := exists_history_run keys hat
  refine ⟨alone, hh, fun lookup hk => ?_, ?_⟩
  · have hfresh := ha.standing lookup
    rw [hrestricts.fresh lookup hk] at hfresh
    exact eq_fresh_of_ofPhase hfresh
  · rw [ha.notes, hrestricts.notes, hrun.notes]

/-- The keys of four lookups. -/
def takeOverKeys (lookup : Nat) : String :=
  if lookup = 2 then "b" else "a"

/-- The computations of four lookups: the first one fails. -/
def takeOverComputation (lookup : Nat) : Computation (Memo Nat) String Nat :=
  .settled (if lookup = 2 then 0 else 1) (if lookup = 0 then .error "down" else .ok lookup)

/-- Of two lookups of a key the second takes over when the first has failed, side by side with one
of another key, and the lookup of a later batch finds the value. -/
theorem drain_takeOver : ∃ first last : Scene (Memo Nat) String Nat,
    Polling.drain (Scene.pollTask whole takeOverKeys takeOverComputation) (fun _ => false)
        .concurrent 3 [0, 1, 2] { world := {} }
      = some (.completed [.error "down", .ok 1, .ok 2], first)
    ∧ Polling.drain (Scene.pollTask whole takeOverKeys takeOverComputation) (fun _ => false)
        .sequential 1 [3] first = some (.completed [.ok 1], last)
    ∧ last.notes = [.started 0, .started 2, .computed 2 (.ok 2), .answered 2 (.ok 2),
        .computed 0 (.error "down"), .answered 0 (.error "down"), .started 1,
        .computed 1 (.ok 1), .answered 1 (.ok 1), .answered 3 (.ok 1)] :=
  ⟨_, _, rfl, rfl, rfl⟩

/-- The two batches are a history, and after it everything is in order. -/
theorem disciplined_takeOver : ∃ scene : Scene (Memo Nat) String Nat,
    History whole takeOverKeys [] { world := {} } scene
      ∧ .answered 3 (.ok 1) ∈ scene.notes ∧ scene.Disciplined whole takeOverKeys := by
  have hquiet : ∀ lookup, Quiet whole (takeOverComputation lookup) := fun _ =>
    ⟨fun _ => rfl, fun _ => rfl, fun _ => rfl⟩
  obtain ⟨first, last, hfirst, hlast, hnotes⟩ := drain_takeOver
  have h := (history_drain takeOverKeys hquiet hfirst).trans
    (history_drain takeOverKeys hquiet hlast)
  exact ⟨last, h, by simp [hnotes], h.disciplined (fun _ _ => rfl) rfl⟩

end QueryEngine.Memo
