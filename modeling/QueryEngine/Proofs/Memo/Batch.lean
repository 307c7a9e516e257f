import QueryEngine.Proofs.Memo.Course
import QueryEngine.Proofs.Polling

/-!
# Batches at a memo

A batch of courses is polled with one memo. At each key some of the batch stand in line, in the
order of the batch wherever that order decides which computation runs (`Attended`). A poll moves one
of them on and leaves the lines served and what the whole batch comes to as it was, with less to do,
or it changes nothing because the one that is polled waits for another (`Attended.poll`). Whoever
waits, another one in the batch is called or computes (`Attended.exists_not_stuck`), so in either
mode the batch drains, and comes to what serving it in order comes to (`exists_drain`).
-/

namespace QueryEngine

variable {E V R : Type}

/-- The place of a course in the line of a key. -/
def Course.standing (key : String) (phase : LookupPhase) : Course E V R → List LookupPhase
  | .lookup other _ _ _ => if other = key then phase.place else []
  | _ => []

namespace Progress

/-- The place in the line of a key. -/
def standing (key : String) : Progress (Stage E V R) R → List LookupPhase
  | .ready _ => []
  | .waiting stage => stage.course.standing key stage.phase

/-- The key is not looked up any more. -/
def Avoids (key : String) : Progress (Stage E V R) R → Prop
  | .ready _ => True
  | .waiting stage => stage.course.Avoids key

/-- What is left is regular. -/
def Regular (uses : String → KeyUse E V) : Progress (Stage E V R) R → Prop
  | .ready _ => True
  | .waiting stage => stage.course.Regular uses

/-- If what is left does not stand in a line, its first polls are over. -/
def Started (uses : String → KeyUse E V) : Progress (Stage E V R) R → Prop
  | .ready _ => True
  | .waiting stage => stage.phase = .fresh → stage.course.Late uses

end Progress

/-- What one of two looks up alone the other one does not look up. -/
def Apart (uses : String → KeyUse E V) (first second : Progress (Stage E V R) R) : Prop :=
  ∀ key, uses key = .single → first.Avoids key ∨ second.Avoids key

/-- The line of a key, in the order of the batch. -/
def standing (key : String) (batch : List (Progress (Stage E V R) R)) : List LookupPhase :=
  batch.flatMap (Progress.standing key)

/-- The memo serves the batch: at each key those of the batch stand in line that have a place there,
in the order of the batch if the key is looked up with first polls only. -/
structure Attended (uses : String → KeyUse E V)
    (batch : List (Progress (Stage E V R) R)) (memo : Memo V) : Prop where
  regular : ∀ progress ∈ batch, progress.Regular uses
  apart : batch.Pairwise (Apart uses)
  lines : ∀ key, ∃ line, (memo.cell key).Serves line ∧ line.Perm (standing key batch)
    ∧ (uses key = .first → line = standing key batch)
  kept : ∀ key, uses key = .kept → memo.get? key ≠ none
  bounded : memo.Bounded

/-- A lookup that waits and is not called. -/
def Stage.Stuck (stage : Stage E V R) (memo : Memo V) : Prop :=
  ∃ key polls outcome rest ticket, stage = ⟨.lookup key polls outcome rest, .waiting ticket⟩
    ∧ memo.get? key = none ∧ (memo.cell key).holder? ≠ some ticket

/-- A lookup that is stuck has entered, so it is not fresh. -/
theorem Stage.Stuck.phase_ne {stage : Stage E V R} {memo : Memo V} (h : stage.Stuck memo) :
    stage.phase ≠ .fresh := by
  obtain ⟨_, _, _, _, _, rfl, -⟩ := h
  exact LookupPhase.noConfusion

/-- What a poll may do with a stage of a batch. -/
inductive Attends (uses : String → KeyUse E V)
    (done : List (Progress (Stage E V R) R)) (stage : Stage E V R)
    (rest : List (Progress (Stage E V R) R)) (memo : Memo V) :
    Progress (Stage E V R) R × Memo V → Prop
  /-- The stage is stuck, and nothing happens. -/
  | stuck (h : stage.Stuck memo) : Attends uses done stage rest memo (.waiting stage, memo)
  /-- The stage gets on, and the batch comes to the same as before. -/
  | moved {progress : Progress (Stage E V R) R} {memo' : Memo V}
    (ha : Attended uses (done ++ progress :: rest) memo') (hs : progress.Started uses)
    (hv : (serveAll (done ++ .waiting stage :: rest) memo.get?).Advances
      (serveAll (done ++ progress :: rest) memo'.get?)) :
    Attends uses done stage rest memo (progress, memo')

section
variable {uses : String → KeyUse E V} {done rest : List (Progress (Stage E V R) R)}
  {memo : Memo V}

/-- The line of a key in two parts of a batch is one line after the other. -/
theorem standing_append (key : String) (first second : List (Progress (Stage E V R) R)) :
    standing key (first ++ second) = standing key first ++ standing key second :=
  List.flatMap_append

/-- The first of a batch stands before the rest of it. -/
theorem standing_cons (key : String) (progress : Progress (Stage E V R) R)
    (rest : List (Progress (Stage E V R) R)) :
    standing key (progress :: rest) = progress.standing key ++ standing key rest :=
  List.flatMap_cons

/-- A course that has not begun stands in no line. -/
theorem standing_fresh (key : String) (course : Course E V R) :
    (Progress.waiting (R := R) { course := course : Stage E V R }).standing key = [] := by
  cases course <;> simp [Progress.standing, Course.standing, LookupPhase.place]

/-- What stands in the line of a key before and after one of a batch. -/
structure Flanks (uses : String → KeyUse E V) (key : String)
    (done rest : List (Progress (Stage E V R) R)) (before after : List LookupPhase) : Prop where
  perm : (before ++ after).Perm (standing key done ++ standing key rest)
  eq : uses key = .first → before = standing key done ∧ after = standing key rest

/-- Whatever stands in the middle of an attended batch is regular. -/
theorem Attended.regular_middle {progress : Progress (Stage E V R) R}
    (h : Attended uses (done ++ progress :: rest) memo) : progress.Regular uses :=
  h.regular progress (List.mem_append_right _ (List.mem_cons_self ..))

/-- One of a batch that looks a key up stands in the line of that key. -/
theorem Attended.split {key : String} {polls : Nat} {outcome : Except E V}
    {next : Except E V → Course E V R} {phase : LookupPhase}
    (h : Attended uses (done ++ .waiting ⟨.lookup key polls outcome next, phase⟩ :: rest) memo)
    (hx : (phase = .fresh → (Course.lookup key polls outcome next).Late uses)
      ∨ standing key rest = []) :
    ∃ before after, (memo.cell key).Serves (before ++ phase.place ++ after)
      ∧ (phase = .fresh → after = []) ∧ Flanks uses key done rest before after := by
  obtain ⟨line, hs, hp, he⟩ := h.lines key
  have hstanding : standing key (done ++ .waiting ⟨.lookup key polls outcome next, phase⟩ :: rest)
      = standing key done ++ (phase.place ++ standing key rest) := by
    simp [standing_append, standing_cons, Progress.standing, Course.standing]
  rw [hstanding] at hp he
  by_cases hu : uses key = .first
  · obtain rfl := he hu
    refine ⟨standing key done, standing key rest, by simpa using hs, ?_, .refl _,
      fun _ => ⟨rfl, rfl⟩⟩
    rintro rfl
    refine hx.resolve_left fun hlate => ?_
    have hadmits := (hlate rfl).1
    rw [hu] at hadmits
    exact hadmits
  · have hnone : ∀ {p : Prop}, uses key = .first → p := fun hn => absurd hn hu
    have hmiddle : ∀ {phase : LookupPhase},
        line.Perm (standing key done ++ phase :: standing key rest) →
          ∃ before after, line = before ++ phase :: after
            ∧ (before ++ after).Perm (standing key done ++ standing key rest) := by
      intro phase hp
      obtain ⟨before, after, rfl⟩ :=
        List.append_of_mem (hp.mem_iff.2 (List.mem_append_right _ (List.mem_cons_self ..)))
      exact ⟨before, after, rfl,
        (List.perm_cons phase).1 (List.perm_middle.symm.trans (hp.trans List.perm_middle))⟩
    cases phase with
    | fresh =>
      have hp : line.Perm (standing key done ++ standing key rest) := hp
      exact ⟨line, [], by simpa [LookupPhase.place] using hs, fun _ => rfl, by simpa using hp,
        hnone⟩
    | waiting ticket =>
      obtain ⟨before, after, rfl, hba⟩ := hmiddle hp
      exact ⟨before, after, by simpa [LookupPhase.place] using hs, by simp, hba, hnone⟩
    | computing polls =>
      obtain ⟨before, after, rfl, hba⟩ := hmiddle hp
      exact ⟨before, after, by simpa [LookupPhase.place] using hs, by simp, hba, hnone⟩

/-- One of a batch stays apart from the others if it looks up no more keys. -/
theorem pairwise_apart_change {progress progress' : Progress (Stage E V R) R}
    (h : (done ++ progress :: rest).Pairwise (Apart uses))
    (ha : ∀ key, progress.Avoids key → progress'.Avoids key) :
    (done ++ progress' :: rest).Pairwise (Apart uses) := by
  simp only [List.pairwise_append, List.pairwise_cons, List.forall_mem_cons] at h ⊢
  obtain ⟨hdone, ⟨hafter, hrest⟩, hbefore⟩ := h
  refine ⟨hdone, ⟨?_, hrest⟩, fun other ho => ⟨?_, (hbefore other ho).2⟩⟩
  · intro other ho key hu
    exact (hafter other ho key hu).imp_left (ha key)
  · intro key hu
    exact ((hbefore other ho).1 key hu).imp_right (ha key)

/-- One of the batch and its memo may change if its lines are still served. -/
theorem Attended.change {progress progress' : Progress (Stage E V R) R} {memo' : Memo V}
    {key : String} (h : Attended uses (done ++ progress :: rest) memo)
    (ht : Memo.Touched key memo memo') (hr : progress'.Regular uses)
    (ha : ∀ key, progress.Avoids key → progress'.Avoids key)
    (hk : memo.get? key ≠ none → memo'.get? key ≠ none)
    (hs : ∀ other, other ≠ key → progress'.standing other = progress.standing other)
    (hl : ∃ line, (memo'.cell key).Serves line
      ∧ line.Perm (standing key (done ++ progress' :: rest))
      ∧ (uses key = .first → line = standing key (done ++ progress' :: rest))) :
    Attended uses (done ++ progress' :: rest) memo' := by
  refine ⟨?_, ?_, ?_, ?_, ht.bounded⟩
  · intro other ho
    rcases List.mem_append.1 ho with ho | ho
    · exact h.regular other (List.mem_append_left _ ho)
    · rcases List.mem_cons.1 ho with rfl | ho
      · exact hr
      · exact h.regular other (List.mem_append_right _ (List.mem_cons_of_mem _ ho))
  · exact pairwise_apart_change h.apart ha
  · intro other
    by_cases ho : other = key
    · subst ho
      exact hl
    · have hstanding : standing other (done ++ progress' :: rest)
          = standing other (done ++ progress :: rest) := by
        simp only [standing_append, standing_cons, hs other ho]
      rw [ht.cell_eq other ho, hstanding]
      exact h.lines other
  · intro other hu
    by_cases ho : other = key
    · subst ho
      exact hk (h.kept other hu)
    · rw [Memo.get?, ht.cell_eq other ho]
      exact h.kept other hu

/-- One of the batch may be replaced by one with the same places. -/
theorem Attended.replace {progress progress' : Progress (Stage E V R) R}
    (h : Attended uses (done ++ progress :: rest) memo) (hr : progress'.Regular uses)
    (ha : ∀ key, progress.Avoids key → progress'.Avoids key)
    (hs : ∀ key, progress'.standing key = progress.standing key) :
    Attended uses (done ++ progress' :: rest) memo := by
  have hstanding : ∀ key, standing key (done ++ progress' :: rest)
      = standing key (done ++ progress :: rest) := by
    intro key
    simp only [standing_append, standing_cons, hs key]
  have hsame : Memo.Touched "" memo memo := ⟨fun _ _ => rfl, h.bounded⟩
  refine h.change hsame hr ha id (fun key _ => hs key) ?_
  rw [hstanding]
  exact h.lines ""

/-- A regular course that does not stand in line looks no key up later that is looked up with first
polls only. -/
theorem Progress.Regular.avoids {progress : Progress (Stage E V R) R} {key : String}
    (h : progress.Regular uses) (hs : progress.Started uses) (hu : uses key = .first)
    (hn : progress.standing key = []) : progress.Avoids key := by
  cases progress with
  | ready result => trivial
  | waiting stage =>
    obtain ⟨course, phase⟩ := stage
    cases course with
    | ready result => trivial
    | pause next => exact Course.Late.avoids h hu
    | lookup other polls found next =>
      refine ⟨?_, fun answer => (h.2 answer).avoids hu⟩
      rintro rfl
      have hplace : phase.place = [] := by simpa [Progress.standing, Course.standing] using hn
      cases phase with
      | fresh => exact (Course.Late.avoids (hs rfl) hu).1 rfl
      | waiting ticket => cases hplace
      | computing polls => cases hplace

/-- Where a key has no value, and in its line nobody stands before a lookup if each computation may
come to anything, all computations before have the outcome of that lookup. -/
theorem Attended.only {key : String} {polls : Nat} {outcome : Except E V}
    {next : Except E V → Course E V R} {phase : LookupPhase}
    (h : Attended uses (done ++ .waiting ⟨.lookup key polls outcome next, phase⟩ :: rest) memo)
    (hd : ∀ progress ∈ done, progress.Started uses) (hv : memo.get? key = none)
    (hn : uses key = .first → standing key done = []) :
    ∀ progress ∈ done, progress.Only key outcome := by
  intro progress hp
  have honly : progress.Avoids key → progress.Only key outcome := by
    cases progress with
    | ready result => exact id
    | waiting stage => exact fun ha => ha.only outcome
  have hregular := h.regular progress (List.mem_append_left _ hp)
  cases hu : uses key with
  | agreed fixed =>
    have hadmits := h.regular_middle.1
    rw [hu] at hadmits
    obtain rfl : outcome = fixed := hadmits
    cases progress with
    | ready result => trivial
    | waiting stage => exact Course.Regular.only hregular hu
  | first =>
    have hplace := List.flatMap_eq_nil_iff.1 (hn hu) progress hp
    exact honly (hregular.avoids (hd progress hp) hu hplace)
  | single =>
    have hapart := (List.pairwise_append.1 h.apart).2.2 progress hp _ (List.mem_cons_self ..) key hu
    exact honly (hapart.resolve_right fun ha => ha.1 rfl)
  | kept => exact absurd hv (h.kept key hu)

/-- What a batch comes to is the same after a lookup of it has ended. -/
theorem Attended.advances_ended {key : String} {polls : Nat} {outcome : Except E V}
    {next : Except E V → Course E V R} {phase : LookupPhase}
    (h : Attended uses (done ++ .waiting ⟨.lookup key polls outcome next, phase⟩ :: rest) memo)
    (hd : ∀ progress ∈ done, progress.Started uses)
    (hn : memo.get? key = none → uses key = .first → standing key done = []) {answer : Except E V}
    (hr : answer = Memo.answer memo.get? key outcome) :
    (serveAll (done ++ .waiting ⟨.lookup key polls outcome next, phase⟩ :: rest)
      memo.get?).Advances (serveAll (done ++ .waiting { course := next answer } :: rest)
        (Memo.learn memo.get? key answer)) := by
  have hdone : serveAll done (Memo.learn memo.get? key answer)
        = { serveAll done memo.get? with
            values := Memo.learn (serveAll done memo.get?).values key answer }
      ∧ Memo.answer (serveAll done memo.get?).values key outcome = answer := by
    cases hv : memo.get? key with
    | none =>
      have hanswer : answer = outcome := by simp [hr, Memo.answer, hv]
      rw [hanswer]
      exact serveAll_learn (h.only hd hv (hn hv)) (hr ▸ hanswer)
    | some value =>
      have hanswer : answer = .ok value := by simp [hr, Memo.answer, hv]
      have hvalue : (serveAll done memo.get?).values key = some value := serveAll_values hv
      rw [hanswer, Memo.learn_eq_self hv, Memo.learn_eq_self hvalue]
      exact ⟨rfl, by simp [Memo.answer, hvalue]⟩
  obtain ⟨hs, ha⟩ := hdone
  have hleft : 0 < phase.left polls := by
    cases phase <;> simp [LookupPhase.left]
  refine serveAll_advances (by rw [hs]) (by rw [hs]) ?_ rest
  rw [hs]
  simp only [Progress.serve, Course.serve, ha]
  exact ⟨rfl, rfl, Nat.lt_add_of_pos_right hleft⟩

section
variable {key : String} {polls : Nat} {outcome : Except E V} {next : Except E V → Course E V R}
  {phase : LookupPhase} {before after : List LookupPhase} {memo' : Memo V}
  (h : Attended uses (done ++ .waiting ⟨.lookup key polls outcome next, phase⟩ :: rest) memo)
  (hf : Flanks uses key done rest before after) (ht : Memo.Touched key memo memo')
  (hk : memo.get? key ≠ none → memo'.get? key ≠ none)
include h hf ht hk

/-- A lookup that gets on keeps its place in line. -/
theorem Attended.moved {phase' : LookupPhase} (hp : phase'.place = [phase'])
    (hs : (memo'.cell key).Serves (before ++ phase' :: after)) :
    Attended uses (done ++ .waiting ⟨.lookup key polls outcome next, phase'⟩ :: rest) memo' := by
  have hregular := h.regular_middle
  have hstanding : standing key (done ++ .waiting ⟨.lookup key polls outcome next, phase'⟩ :: rest)
      = standing key done ++ phase' :: standing key rest := by
    simp [standing_append, standing_cons, Progress.standing, Course.standing, hp]
  refine h.change ht hregular (fun _ ha => ha) hk ?_ ⟨before ++ phase' :: after, hs, ?_, ?_⟩
  · intro other ho
    simp [Progress.standing, Course.standing, Ne.symm ho]
  · rw [hstanding]
    exact List.perm_middle.trans ((hf.perm.cons phase').trans List.perm_middle.symm)
  · intro hn
    rw [hstanding, (hf.eq hn).1, (hf.eq hn).2]

/-- A lookup that ends leaves the line. -/
theorem Attended.ended (result : Except E V) (hs : (memo'.cell key).Serves (before ++ after)) :
    Attended uses (done ++ .waiting { course := next result } :: rest) memo' := by
  have hregular := h.regular_middle
  have hstanding : standing key (done ++ .waiting { course := next result } :: rest)
      = standing key done ++ standing key rest := by
    simp [standing_append, standing_cons, standing_fresh]
  refine h.change ht (hregular.2 result).regular (fun _ ha => ha.2 result) hk ?_
    ⟨before ++ after, hs, ?_, ?_⟩
  · intro other ho
    rw [standing_fresh]
    simp [Progress.standing, Course.standing, Ne.symm ho]
  · rw [hstanding]
    exact hf.perm
  · intro hn
    rw [hstanding, (hf.eq hn).1, (hf.eq hn).2]

end

/-- Where nothing but the cell of a key changed, the values are those with the value of that key. -/
theorem Memo.Touched.get?_eq {key : String} {memo' : Memo V} (ht : Memo.Touched key memo memo')
    {found : Except E V} (hv : memo'.get? key = found.toOption) :
    memo'.get? = Memo.learn memo.get? key found := by
  funext other
  by_cases ho : other = key
  · subst ho
    simp [Memo.learn, hv]
  · simp [Memo.learn, ho, Memo.get?, ht.cell_eq other ho]

/-- If the value of the one key that was touched is the same, then all values are. -/
theorem Memo.Touched.get?_eq_self {key : String} {memo' : Memo V}
    (ht : Memo.Touched key memo memo') (hv : memo'.get? key = memo.get? key) :
    memo'.get? = memo.get? := by
  funext other
  by_cases ho : other = key
  · rw [ho, hv]
  · simp [Memo.get?, ht.cell_eq other ho]

/-- A poll of one of a batch: it is stuck, or it gets on and the batch comes to the same. -/
theorem Attended.poll {course : Course E V R} {phase : LookupPhase}
    (h : Attended uses (done ++ .waiting ⟨course, phase⟩ :: rest) memo)
    (hd : ∀ progress ∈ done, progress.Started uses)
    (hx : (phase = .fresh → course.Late uses) ∨ ∀ key, standing key rest = []) :
    Attends uses done ⟨course, phase⟩ rest memo (course.poll phase memo) := by
  induction course generalizing phase memo with
  | ready result =>
    let waiting : Progress (Stage E V R) R := .waiting ⟨.ready result, phase⟩
    let ready : Progress (Stage E V R) R := .ready result
    have hless : ∀ values, (waiting.serve values).Advances (ready.serve values) :=
      fun _ => ⟨rfl, rfl, Nat.one_pos⟩
    exact .moved (h.replace trivial (fun _ _ => trivial) fun _ => rfl) trivial
      (serveAll_advances rfl rfl (hless _) rest)
  | pause next _ =>
    have hlate : next.Late uses := h.regular_middle
    have hless : ∀ values, (Progress.serve values (.waiting ⟨.pause next, phase⟩)).Advances
        (Progress.serve values (.waiting { course := next })) :=
      fun _ => ⟨rfl, rfl, Nat.lt_succ_self _⟩
    exact .moved (h.replace hlate.regular (fun _ ha => ha) fun key => standing_fresh key next)
      (fun _ => hlate) (serveAll_advances rfl rfl (hless _) rest)
  | lookup key polls outcome next ih =>
    obtain ⟨before, after, hs, hfresh, hf⟩ := h.split (hx.imp_right fun hx => hx key)
    have hpolled : Memo.Polled memo key polls outcome phase before after _ :=
      Memo.polled h.bounded hs hfresh
    rw [Course.poll]
    generalize Memo.poll Memo.whole key (.settled polls outcome) phase memo = polled at hpolled
    cases hpolled with
    | stuck hp hv hh =>
      subst hp
      exact .stuck ⟨key, polls, outcome, next, _, rfl, hv, hh⟩
    | @moved phase' memo' hp hl hv hs ht =>
      have hless : ∀ values,
          (Progress.serve values (.waiting ⟨.lookup key polls outcome next, phase⟩)).Advances
            (Progress.serve values (.waiting ⟨.lookup key polls outcome next, phase'⟩)) :=
        fun _ => ⟨rfl, rfl, Nat.add_lt_add_left hl _⟩
      have hk : memo.get? key ≠ none → memo'.get? key ≠ none := fun hn => hv.trans_ne hn
      refine .moved (h.moved hf ht hk hp hs) ?_ ?_
      · rintro rfl
        cases hp
      · rw [ht.get?_eq_self hv]
        exact serveAll_advances rfl rfl (hless _) rest
    | @ended result memo' hr hb hv hs ht =>
      have hempty : memo.get? key = none → uses key = .first → standing key done = [] := by
        intro hn ha
        rw [← (hf.eq ha).1]
        exact hb hn
      have hadvances := h.advances_ended hd hempty hr
      rw [← ht.get?_eq hv] at hadvances
      have hlate := h.regular_middle.2 result
      have hk : memo.get? key ≠ none → memo'.get? key ≠ none := by
        intro hn
        obtain ⟨value, hvalue⟩ := Option.ne_none_iff_exists'.1 hn
        rw [hv, hr, Memo.answer, hvalue]
        exact Option.some_ne_none value
      have hpoll := ih result (h.ended hf ht hk result hs) (.inl fun _ => hlate)
      show Attends uses done _ rest memo ((next result).poll .fresh memo')
      generalize (next result).poll .fresh memo' = polled at hpoll
      cases hpoll with
      | stuck hstuck => exact absurd rfl hstuck.phase_ne
      | moved ha hs hv => exact .moved ha hs (hadvances.trans hv)

/-- Who has a place in the line of a key looks it up. -/
theorem exists_of_mem_standing {key : String} {phase : LookupPhase}
    {batch : List (Progress (Stage E V R) R)} (h : phase ∈ standing key batch) :
    ∃ polls outcome next, .waiting ⟨.lookup key polls outcome next, phase⟩ ∈ batch := by
  obtain ⟨progress, hp, hm⟩ := List.mem_flatMap.1 h
  cases progress with
  | ready result => cases hm
  | waiting stage =>
    obtain ⟨course, phase'⟩ := stage
    cases course with
    | ready result => cases hm
    | pause next => cases hm
    | lookup other polls outcome next =>
      by_cases ho : other = key
      · have hm : phase ∈ phase'.place := by
          simpa [Progress.standing, Course.standing, ho] using hm
        have hphase : phase = phase' := by
          cases phase' with
          | fresh => cases hm
          | waiting ticket => exact List.mem_singleton.1 hm
          | computing n => exact List.mem_singleton.1 hm
        subst ho hphase
        exact ⟨polls, outcome, next, hp⟩
      · simp [Progress.standing, Course.standing, ho] at hm

/-- Where one of a batch is stuck, another one is called or computes. -/
theorem Attended.exists_not_stuck {batch : List (Progress (Stage E V R) R)}
    (h : Attended uses batch memo) {stage : Stage E V R} (hm : .waiting stage ∈ batch)
    (hs : stage.Stuck memo) :
    ∃ other : Stage E V R, .waiting other ∈ batch
      ∧ (∃ key, (Progress.waiting other : Progress (Stage E V R) R).standing key ≠ [])
      ∧ ¬ other.Stuck memo := by
  obtain ⟨key, polls, outcome, next, ticket, rfl, hv, hh⟩ := hs
  obtain ⟨line, hserves, hperm, -⟩ := h.lines key
  have hplace : LookupPhase.waiting ticket ∈ line := by
    refine hperm.mem_iff.2 (List.mem_flatMap.2 ⟨_, hm, ?_⟩)
    simp [Progress.standing, Course.standing, LookupPhase.place]
  generalize hc : memo.cell key = cell at hserves
  cases hserves with
  | kept value tickets => simp [Memo.get?, hc] at hv
  | idle => cases hplace
  | @called holder waiting hn =>
    obtain ⟨polls, outcome, next, ho⟩ :=
      exists_of_mem_standing (hperm.mem_iff.1 (List.mem_cons_self ..))
    refine ⟨_, ho, ⟨key, by simp [Progress.standing, Course.standing, LookupPhase.place]⟩, ?_⟩
    rintro ⟨_, _, _, _, _, he, -, hholder⟩
    cases he
    exact hholder (by rw [hc])
  | @computing n holder waiting hn =>
    obtain ⟨polls, outcome, next, ho⟩ :=
      exists_of_mem_standing (hperm.mem_iff.1 (List.mem_cons_self ..))
    refine ⟨_, ho, ⟨key, by simp [Progress.standing, Course.standing, LookupPhase.place]⟩, ?_⟩
    rintro ⟨_, _, _, _, _, he, -⟩
    cases he

/-! ## Rounds -/

/-- Advancing one of a batch: it stays as it is because it is ready or stuck, or the batch comes to
the same with less to do. -/
theorem Attended.advance {progress progress' : Progress (Stage E V R) R} {memo' : Memo V}
    (h : Attended uses (done ++ progress :: rest) memo)
    (hd : ∀ progress ∈ done, progress.Started uses)
    (hx : progress.Started uses ∨ ∀ key, standing key rest = [])
    (hn : Polling.advance Stage.poll progress memo = (progress', memo')) :
    Attended uses (done ++ progress' :: rest) memo' ∧ progress'.Started uses
      ∧ ((serveAll (done ++ progress :: rest) memo.get?).Advances
          (serveAll (done ++ progress' :: rest) memo'.get?)
        ∨ progress' = progress ∧ memo' = memo
          ∧ ∀ stage, progress = .waiting stage → stage.Stuck memo) := by
  cases progress with
  | ready result =>
    cases hn
    exact ⟨h, trivial, .inr ⟨rfl, rfl, fun _ hs => by cases hs⟩⟩
  | waiting stage =>
    obtain ⟨course, phase⟩ := stage
    have hpoll := h.poll hd hx
    have hn : course.poll phase memo = (progress', memo') := hn
    rw [hn] at hpoll
    cases hpoll with
    | stuck hstuck =>
      refine ⟨h, fun hfresh => absurd hfresh hstuck.phase_ne, .inr ⟨rfl, rfl, ?_⟩⟩
      · intro other ho
        exact Progress.waiting.inj ho ▸ hstuck
    | moved ha hs hv => exact ⟨ha, hs, .inl hv⟩

/-- A round: nothing changes because all that is not ready is stuck, or the batch comes to the same
with less to do. -/
theorem Attended.round {rest' : List (Progress (Stage E V R) R)} {memo' : Memo V}
    (h : Attended uses (done ++ rest) memo) (hd : ∀ progress ∈ done, progress.Started uses)
    (hr : (∀ progress ∈ rest, progress.Started uses)
      ∨ ∀ progress ∈ rest, ∀ key, progress.standing key = [])
    (hn : Polling.round Stage.poll rest memo = (rest', memo')) :
    Attended uses (done ++ rest') memo' ∧ (∀ progress ∈ rest', progress.Started uses)
      ∧ ((serveAll (done ++ rest) memo.get?).Advances (serveAll (done ++ rest') memo'.get?)
        ∨ rest' = rest ∧ memo' = memo ∧ ∀ stage, .waiting stage ∈ rest → stage.Stuck memo) := by
  induction rest generalizing done memo rest' with
  | nil =>
    cases hn
    refine ⟨h, ?_, .inr ⟨rfl, rfl, ?_⟩⟩
    · intro progress hp
      cases hp
    · intro stage hp
      cases hp
  | cons progress rest ih =>
    have hx : progress.Started uses ∨ ∀ key, standing key rest = [] := by
      refine hr.imp (fun hr => hr progress (List.mem_cons_self ..)) fun hr key => ?_
      exact List.flatMap_eq_nil_iff.2 fun other ho => hr other (List.mem_cons_of_mem _ ho) key
    have hrest := hr.imp (fun hr other ho => hr other (List.mem_cons_of_mem progress ho))
      fun hr other ho => hr other (List.mem_cons_of_mem progress ho)
    rw [Polling.round] at hn
    cases ha : Polling.advance Stage.poll progress memo with
    | mk first middle =>
      cases hb : Polling.round Stage.poll rest middle with
      | mk others last =>
        simp only [ha, hb] at hn
        cases hn
        obtain ⟨hattended, hstarted, hfirst⟩ := h.advance hd hx ha
        have hd' : ∀ other ∈ done ++ [first], other.Started uses := by
          intro other ho
          rcases List.mem_append.1 ho with ho | ho
          · exact hd other ho
          · exact List.mem_singleton.1 ho ▸ hstarted
        rw [List.append_cons] at hattended
        obtain ⟨hattended', hothers, hlast⟩ := ih hattended hd' hrest hb
        simp only [List.append_assoc, List.singleton_append] at hattended' hlast
        refine ⟨hattended', List.forall_mem_cons.2 ⟨hstarted, hothers⟩, ?_⟩
        rcases hfirst with hfirst | ⟨rfl, rfl, hstuck⟩
        · refine .inl ?_
          rcases hlast with hlast | ⟨rfl, rfl, -⟩
          · exact hfirst.trans hlast
          · exact hfirst
        · rcases hlast with hlast | ⟨rfl, rfl, hstuck'⟩
          · exact .inl hlast
          · refine .inr ⟨rfl, rfl, ?_⟩
            intro stage hs
            rcases List.mem_cons.1 hs with hs | hs
            · exact hstuck stage hs.symm
            · exact hstuck' stage hs

/-! ## Both ways to drain -/

/-- Serving a batch that is ready costs nothing and teaches the memo nothing. -/
theorem serveAll_ready (results : List R) (values : String → Option V) :
    serveAll (results.map (.ready : R → Progress (Stage E V R) R)) values
      = ⟨results, 0, values⟩ := by
  induction results generalizing values with
  | nil => rfl
  | cons result rest ih => simp [serveAll, Progress.serve, Served.append, ih]

/-- When a batch is ready nobody looks anything up. -/
theorem Attended.idle {results : List R}
    (h : Attended uses (results.map (.ready : R → Progress (Stage E V R) R)) memo) :
    memo.Idle := by
  intro key
  obtain ⟨line, hs, hp, -⟩ := h.lines key
  have hempty : standing key (results.map (.ready : R → Progress (Stage E V R) R)) = [] := by
    refine List.flatMap_eq_nil_iff.2 fun progress hm => ?_
    obtain ⟨result, -, rfl⟩ := List.mem_map.1 hm
    rfl
  rw [hempty] at hp
  exact hp.eq_nil ▸ hs

/-- Polled round after round, a batch comes to what serving it in order comes to. -/
theorem Attended.exists_concurrently {batch : List (Progress (Stage E V R) R)}
    (h : Attended uses batch memo)
    (hr : (∀ progress ∈ batch, progress.Started uses)
      ∨ ∀ progress ∈ batch, ∀ key, progress.standing key = []) :
    ∃ fuel memo', Polling.concurrently Stage.poll (fun _ => false) fuel batch memo
        = some (.completed (serveAll batch memo.get?).results, memo')
      ∧ memo'.Idle ∧ memo'.get? = (serveAll batch memo.get?).values := by
  induction hcost : (serveAll batch memo.get?).cost using Nat.strongRecOn
    generalizing batch memo with
  | ind cost ih =>
    subst hcost
    cases hn : Polling.round Stage.poll batch memo with
    | mk batch' memo' =>
      have h' : Attended uses ([] ++ batch) memo := h
      obtain ⟨hattended, hstarted, hadvances⟩ := h'.round (fun _ hp => by cases hp) hr hn
      simp only [List.nil_append] at hattended hadvances
      cases hres : Polling.results? batch' with
      | some results =>
        obtain rfl := Polling.eq_map_ready_of_results? hres
        have hserve := serveAll_ready (E := E) results memo'.get?
        have hsame : (serveAll batch memo.get?).results = results
            ∧ (serveAll batch memo.get?).values = memo'.get? := by
          rcases hadvances with hadvances | ⟨rfl, rfl, -⟩
          · rw [← hadvances.results, ← hadvances.values, hserve]
            exact ⟨rfl, rfl⟩
          · rw [hserve]
            exact ⟨rfl, rfl⟩
        refine ⟨1, memo', ?_, hattended.idle, hsame.2.symm⟩
        rw [Polling.concurrently, hn, hsame.1]
        simp only [hres]
      | none =>
        rcases hadvances with hadvances | ⟨rfl, rfl, hstuck⟩
        · obtain ⟨fuel, last, hc, hidle, hv⟩ :=
            ih _ hadvances.cost hattended (.inl hstarted) rfl
          rw [hadvances.results] at hc
          rw [hadvances.values] at hv
          refine ⟨fuel + 1, last, ?_, hidle, hv⟩
          rw [Polling.concurrently, hn]
          simpa only [hres, Bool.false_eq_true, if_false] using hc
        · obtain ⟨stage, hm⟩ := Polling.exists_waiting_of_results? hres
          obtain ⟨other, ho, -, hnot⟩ := h.exists_not_stuck hm (hstuck stage hm)
          exact absurd (hstuck other ho) hnot

/-- Polled by itself before the rest of the batch begins, a stage becomes ready. -/
theorem Attended.exists_force {stage : Stage E V R}
    (h : Attended uses (.waiting stage :: rest) memo)
    (hr : ∀ progress ∈ rest, ∀ key, progress.standing key = []) :
    ∃ fuel result memo', Polling.force Stage.poll (fun _ => false) fuel stage memo
        = some (some result, memo')
      ∧ Attended uses (.ready result :: rest) memo'
      ∧ (serveAll (.ready result :: rest) memo'.get?).results
        = (serveAll (.waiting stage :: rest) memo.get?).results
      ∧ (serveAll (.ready result :: rest) memo'.get?).values
        = (serveAll (.waiting stage :: rest) memo.get?).values := by
  induction hcost : (serveAll (.waiting stage :: rest) memo.get?).cost using Nat.strongRecOn
    generalizing stage memo with
  | ind cost ih =>
    subst hcost
    cases hn : stage.poll memo with
    | mk progress memo' =>
      have h' : Attended uses ([] ++ .waiting stage :: rest) memo := h
      obtain ⟨hattended, -, hadvances⟩ := h'.advance (fun _ hp => by cases hp)
        (.inr fun key => List.flatMap_eq_nil_iff.2 (hr · · key)) hn
      simp only [List.nil_append] at hattended hadvances
      rcases hadvances with hadvances | ⟨-, -, hstuck⟩
      · cases progress with
        | ready result =>
          refine ⟨1, result, memo', ?_, hattended, hadvances.results, hadvances.values⟩
          rw [Polling.force, hn]
        | waiting stage' =>
          obtain ⟨fuel, result, last, hf, ha, hres, hv⟩ := ih _ hadvances.cost hattended rfl
          refine ⟨fuel + 1, result, last, ?_, ha, hres.trans hadvances.results,
            hv.trans hadvances.values⟩
          rw [Polling.force, hn]
          simpa only [Bool.false_eq_true, if_false] using hf
      · -- Nobody else stands in line, so the stage is called.
        obtain ⟨other, ho, ⟨key, hkey⟩, hnot⟩ :=
          h.exists_not_stuck (List.mem_cons_self ..) (hstuck stage rfl)
        rcases List.mem_cons.1 ho with ho | ho
        · exact absurd (hstuck other ho.symm) hnot
        · exact absurd (hr _ ho key) hkey

/-- Polled one after the other, the courses come to what serving them in order comes to. -/
theorem Attended.exists_sequentially {stages : List (Stage E V R)}
    (h : Attended uses (stages.map .waiting) memo)
    (hr : ∀ progress ∈ stages.map (.waiting : _ → Progress (Stage E V R) R), ∀ key,
      progress.standing key = []) :
    ∃ fuel memo', Polling.sequentially Stage.poll (fun _ => false) fuel stages memo
        = some (.completed (serveAll (stages.map .waiting) memo.get?).results, memo')
      ∧ memo'.Idle ∧ memo'.get? = (serveAll (stages.map .waiting) memo.get?).values := by
  induction stages generalizing memo with
  | nil =>
    have h' : Attended uses (([] : List R).map .ready) memo := h
    exact ⟨0, memo, rfl, h'.idle, rfl⟩
  | cons stage stages ih =>
    rw [List.map_cons] at h hr
    have hrest := fun progress hp => hr progress (List.mem_cons_of_mem _ hp)
    obtain ⟨fuel, result, middle, hf, ha, hres, hv⟩ := h.exists_force hrest
    have ha' : Attended uses (stages.map .waiting) middle :=
      ⟨fun progress hp => ha.regular progress (List.mem_cons_of_mem _ hp),
        (List.pairwise_cons.1 ha.apart).2, ha.lines, ha.kept, ha.bounded⟩
    obtain ⟨fuel', last, hs, hidle, hv'⟩ := ih ha' hrest
    have hf' := Polling.force_mono hf (Nat.le_max_left fuel fuel')
    have hs' := Polling.sequentially_mono hs (Nat.le_max_right fuel fuel')
    refine ⟨max fuel fuel', last, ?_, hidle, hv'.trans hv⟩
    rw [Polling.sequentially, hf']
    simp only [hs', List.map_cons, ← hres]
    rfl

/-- In either mode a batch of courses comes to what serving them in order comes to, and leaves an
idle memo with the same values. -/
theorem exists_drain {courses : List (Course E V R)} {memo : Memo V} (hi : memo.Idle)
    (hs : SharesKeys uses memo.get? courses) (mode : DrainMode) :
    let stages := courses.map fun course => ({ course } : Stage E V R)
    ∃ fuel memo', Polling.drain Stage.poll (fun _ => false) mode fuel stages memo
        = some (.completed (serveAll (stages.map .waiting) memo.get?).results, memo')
      ∧ memo'.Idle ∧ memo'.get? = (serveAll (stages.map .waiting) memo.get?).values := by
  intro stages
  have hfresh : ∀ progress ∈ stages.map (.waiting : _ → Progress (Stage E V R) R), ∀ key,
      progress.standing key = [] := by
    intro progress hp key
    obtain ⟨stage, hm, rfl⟩ := List.mem_map.1 hp
    obtain ⟨course, -, rfl⟩ := List.mem_map.1 hm
    exact standing_fresh key course
  have hempty : ∀ key,
      standing key (stages.map (.waiting : _ → Progress (Stage E V R) R)) = [] :=
    fun key => List.flatMap_eq_nil_iff.2 (hfresh · · key)
  have hattended : Attended uses (stages.map .waiting) memo := by
    refine ⟨?_, ?_, ?_, hs.kept, hi.bounded⟩
    · intro progress hp
      obtain ⟨stage, hm, rfl⟩ := List.mem_map.1 hp
      obtain ⟨course, hc, rfl⟩ := List.mem_map.1 hm
      exact hs.regular course hc
    · rw [List.map_map, List.pairwise_map]
      exact hs.single
    · intro key
      rw [hempty key]
      exact ⟨[], hi key, .refl _, fun _ => rfl⟩
  cases mode with
  | concurrent => exact hattended.exists_concurrently (.inr hfresh)
  | sequential => exact hattended.exists_sequentially hfresh

/-- Two courses look one key up, the first one later than with its first poll, and their
computations do not agree: the mode decides which of them runs. -/
example :
    let stages : List (Stage Unit Nat (Except Unit Nat)) :=
      [{ course := .pause (.lookup "k" 0 (.ok 1) .ready) },
       { course := .lookup "k" 0 (.ok 2) .ready }]
    let drained (mode : DrainMode) := Polling.drain Stage.poll (fun _ => false) mode 2 stages {}
    (drained .concurrent).map Prod.fst = some (.completed [.ok 2, .ok 2])
      ∧ (drained .sequential).map Prod.fst = some (.completed [.ok 1, .ok 1]) :=
  ⟨rfl, rfl⟩

end

end QueryEngine
