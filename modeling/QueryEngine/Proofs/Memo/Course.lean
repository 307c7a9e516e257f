import Mathlib.Logic.Function.Basic
import QueryEngine.Proofs.Memo.Line

/-!
# Courses

A task that meets other tasks at a memo only follows a `Course`: from poll to poll it pauses, looks
keys up and is ready in the end. Courses can be polled by themselves, with a memo for a world
(`Course.poll`). What a course comes to where it is served on its own is read off the values of the
memo (`Course.serve`), together with more than the polls that it takes. That a key gets the value it
has anyway does not change what another course comes to (`Course.serve_learn`).

Which of several computations of a key runs may depend on when each course comes to its lookup.
`SharesKeys` says that it does not matter: for each key, by its `KeyUse`.
-/

namespace QueryEngine

variable {E V R : Type}

/-- What a task does, from poll to poll. -/
inductive Course (E V R : Type) where
  | ready (result : R)
  /-- Waits for the next poll. -/
  | pause (rest : Course E V R)
  /-- Looks a key up. Its own computation takes some polls and has the given outcome. -/
  | lookup (key : String) (polls : Nat) (outcome : Except E V) (rest : Except E V → Course E V R)

/-- A course under way: how far its first lookup is, if it begins with one. -/
structure Stage (E V R : Type) where
  course : Course E V R
  phase : LookupPhase := .fresh

namespace Course

/-- Polls a course. When a lookup ends, the poll goes on with what comes next. -/
def poll : Course E V R → LookupPhase → Memo V → Progress (Stage E V R) R × Memo V
  | .ready result, _, memo => (.ready result, memo)
  | .pause rest, _, memo => (.waiting { course := rest }, memo)
  | .lookup key polls outcome rest, phase, memo =>
    match Memo.poll Memo.whole key (.settled polls outcome) phase memo with
    | (.waiting phase, memo) => (.waiting ⟨.lookup key polls outcome rest, phase⟩, memo)
    | (.ready answer, memo) => (rest answer).poll .fresh memo

end Course

/-- Polls a course under way. -/
def Stage.poll (stage : Stage E V R) (memo : Memo V) : Progress (Stage E V R) R × Memo V :=
  stage.course.poll stage.phase memo

/-- How the tasks of a batch use a key, so that it does not matter when each of them looks it up. -/
inductive KeyUse (E V : Type) where
  /-- All its computations have one outcome. -/
  | agreed (outcome : Except E V)
  /-- It is looked up with the first polls of tasks, and each computation may come to anything. -/
  | first
  /-- One task alone looks it up. -/
  | single
  /-- It has a value, so nothing is computed. -/
  | kept

namespace KeyUse

/-- A lookup with a computation of that outcome may come with the first poll of a task. -/
def Admits (outcome : Except E V) : KeyUse E V → Prop
  | .agreed found => outcome = found
  | .first | .single | .kept => True

/-- A lookup with a computation of that outcome may come with any poll of a task. -/
def AdmitsLate (outcome : Except E V) : KeyUse E V → Prop
  | .agreed found => outcome = found
  | .first => False
  | .single | .kept => True

/-- A lookup that may come with any poll may come with the first one. -/
theorem AdmitsLate.admits {outcome : Except E V} {use : KeyUse E V} (h : use.AdmitsLate outcome) :
    use.Admits outcome := by
  cases use with
  | agreed found => exact h
  | first | single | kept => trivial

end KeyUse

namespace Course

/-- The key is never looked up. -/
def Avoids (key : String) : Course E V R → Prop
  | .ready _ => True
  | .pause rest => rest.Avoids key
  | .lookup other _ _ rest => other ≠ key ∧ ∀ answer, (rest answer).Avoids key

/-- All computations of one key have one outcome. -/
def Only (key : String) (outcome : Except E V) : Course E V R → Prop
  | .ready _ => True
  | .pause rest => rest.Only key outcome
  | .lookup other _ found rest =>
    (other = key → found = outcome) ∧ ∀ answer, (rest answer).Only key outcome

/-- Every lookup may come with any poll. -/
def Late (uses : String → KeyUse E V) : Course E V R → Prop
  | .ready _ => True
  | .pause rest => rest.Late uses
  | .lookup key _ outcome rest =>
    (uses key).AdmitsLate outcome ∧ ∀ answer, (rest answer).Late uses

/-- The first lookup comes with the first poll if the course begins with it, the other ones may come
with any poll. -/
def Regular (uses : String → KeyUse E V) : Course E V R → Prop
  | .lookup key _ outcome rest =>
    (uses key).Admits outcome ∧ ∀ answer, (rest answer).Late uses
  | course => course.Late uses

section
variable {uses : String → KeyUse E V} {key : String} {course : Course E V R}

/-- A course whose lookups may come with any poll is regular. -/
theorem Late.regular (h : course.Late uses) : course.Regular uses := by
  cases course with
  | ready result => trivial
  | pause rest => exact h
  | lookup key polls outcome rest => exact ⟨h.1.admits, h.2⟩

/-- A course that never looks a key up computes nothing for it, so all of that has one outcome. -/
theorem Avoids.only (h : course.Avoids key) (outcome : Except E V) : course.Only key outcome := by
  induction course with
  | ready result => trivial
  | pause rest ih => exact ih h
  | lookup other polls found rest ih =>
    exact ⟨fun ho => absurd ho h.1, fun answer => ih answer (h.2 answer)⟩

/-- A key that is looked up with first polls only is not looked up later. -/
theorem Late.avoids (h : course.Late uses) (hu : uses key = .first) : course.Avoids key := by
  induction course with
  | ready result => trivial
  | pause rest ih => exact ih h
  | lookup other polls found rest ih =>
    refine ⟨?_, fun answer => ih answer (h.2 answer)⟩
    rintro rfl
    have hadmits := h.1
    rw [hu] at hadmits
    exact hadmits

/-- Where the computations of a key agree, those that come late have that outcome, too. -/
theorem Late.only {outcome : Except E V} (h : course.Late uses) (hu : uses key = .agreed outcome) :
    course.Only key outcome := by
  induction course with
  | ready result => trivial
  | pause rest ih => exact ih h
  | lookup other polls found rest ih =>
    refine ⟨?_, fun answer => ih answer (h.2 answer)⟩
    rintro rfl
    have hadmits := h.1
    rw [hu] at hadmits
    exact hadmits

/-- Where the computations of a key agree, all have that outcome. -/
theorem Regular.only {outcome : Except E V} (h : course.Regular uses)
    (hu : uses key = .agreed outcome) : course.Only key outcome := by
  cases course with
  | ready result => trivial
  | pause rest => exact Late.only h hu
  | lookup other polls found rest =>
    refine ⟨?_, fun answer => (h.2 answer).only hu⟩
    rintro rfl
    have hadmits := h.1
    rw [hu] at hadmits
    exact hadmits

end

end Course

/-- Courses use keys as said, where these values are in the memo. -/
structure SharesKeys (uses : String → KeyUse E V) (values : String → Option V)
    (courses : List (Course E V R)) : Prop where
  regular : ∀ course ∈ courses, course.Regular uses
  single : courses.Pairwise fun first second =>
    ∀ key, uses key = .single → first.Avoids key ∨ second.Avoids key
  kept : ∀ key, uses key = .kept → values key ≠ none

/-! ## Serving -/

/-- What serving comes to: results, a bound on the polls, and the values of the memo afterwards. -/
structure Served (V R : Type) where
  results : List R
  cost : Nat
  values : String → Option V

namespace Memo

/-- The values after a lookup that ended so. -/
def learn (values : String → Option V) (key : String) (answer : Except E V) : String → Option V :=
  Function.update values key answer.toOption

/-- A lookup of a key that was learned ends as it was learned. -/
theorem answer_learn (values : String → Option V) (key : String) (outcome : Except E V) :
    answer (learn values key outcome) key outcome = outcome := by
  cases outcome <;> simp [answer, learn, Except.toOption]

/-- What is learned of a key does not answer lookups of another one. -/
theorem answer_learn_of_ne {key other : String} (h : other ≠ key) (values : String → Option V)
    (found outcome : Except E V) :
    answer (learn values key found) other outcome = answer values other outcome := by
  simp [answer, learn, h]

/-- To learn the same again is to learn nothing. -/
theorem learn_learn (values : String → Option V) (key : String) (outcome : Except E V) :
    learn (learn values key outcome) key outcome = learn values key outcome :=
  Function.update_idem ..

/-- It does not matter which of two keys is learned first. -/
theorem learn_comm {key other : String} (h : other ≠ key) (values : String → Option V)
    (found outcome : Except E V) :
    learn (learn values key outcome) other found = learn (learn values other found) key outcome :=
  Function.update_comm (Ne.symm h) ..

/-- An answer that is the value anyway teaches nothing. -/
theorem learn_eq_self {values : String → Option V} {key : String} {found : Except E V}
    (h : values key = found.toOption) : learn values key found = values := by
  rw [learn, ← h, Function.update_eq_self]

end Memo

namespace Course

/-- Serves a course on its own, with its first lookup in some phase. -/
def serve : Course E V R → LookupPhase → (String → Option V) → Served V R
  | .ready result, _, values => ⟨[result], 1, values⟩
  | .pause rest, _, values =>
    let served := rest.serve .fresh values
    { served with cost := served.cost + 1 }
  | .lookup key polls outcome rest, phase, values =>
    let answer := Memo.answer values key outcome
    let served := (rest answer).serve .fresh (Memo.learn values key answer)
    { served with cost := served.cost + phase.left polls }

/-- To learn what the computations of a key have for outcome, and what the key has for a value if it
has one, does not change how a course is served. -/
theorem serve_learn {key : String} {outcome : Except E V} {course : Course E V R}
    (h : course.Only key outcome) (phase : LookupPhase) {values : String → Option V}
    (hv : Memo.answer values key outcome = outcome) :
    course.serve phase (Memo.learn values key outcome)
        = { course.serve phase values with
            values := Memo.learn (course.serve phase values).values key outcome }
      ∧ Memo.answer (course.serve phase values).values key outcome = outcome := by
  induction course generalizing phase values with
  | ready result => exact ⟨rfl, hv⟩
  | pause rest ih =>
    obtain ⟨hs, ha⟩ := ih h .fresh hv
    simp only [serve, hs]
    exact ⟨trivial, ha⟩
  | lookup other polls found rest ih =>
    by_cases ho : other = key
    · subst ho
      obtain rfl := h.1 rfl
      obtain ⟨hs, ha⟩ := ih found (h.2 found) .fresh (Memo.answer_learn values other found)
      have hvalues := congrArg Served.values hs
      simp only [Memo.learn_learn] at hvalues
      simp only [serve, hv, Memo.answer_learn, Memo.learn_learn, ← hvalues]
      exact ⟨trivial, ha⟩
    · have hv' : Memo.answer (Memo.learn values other (Memo.answer values other found)) key outcome
          = outcome := by
        rw [Memo.answer_learn_of_ne (Ne.symm ho), hv]
      obtain ⟨hs, ha⟩ := ih (Memo.answer values other found) (h.2 _) .fresh hv'
      simp only [serve, Memo.answer_learn_of_ne ho, Memo.learn_comm ho, hs]
      exact ⟨trivial, ha⟩

/-- A value stays where it is. -/
theorem serve_values {course : Course E V R} (phase : LookupPhase) {values : String → Option V}
    {key : String} {value : V} (h : values key = some value) :
    (course.serve phase values).values key = some value := by
  induction course generalizing phase values with
  | ready result => exact h
  | pause rest ih => exact ih .fresh h
  | lookup other polls found rest ih =>
    refine ih _ .fresh ?_
    by_cases ho : key = other
    · subst ho
      simp [Memo.learn, Memo.answer, h, Except.toOption]
    · simp [Memo.learn, ho, h]

end Course

/-- What serving one after the other comes to. -/
def Served.append (first second : Served V R) : Served V R :=
  ⟨first.results ++ second.results, first.cost + second.cost, second.values⟩

/-- The second comes to the same as the first, with less to do. -/
structure Served.Advances (before after : Served V R) : Prop where
  results : after.results = before.results
  values : after.values = before.values
  cost : after.cost < before.cost

/-- A serving that is advanced twice comes to the same in the end, with less to do than at first. -/
theorem Served.Advances.trans {a b c : Served V R} (h : a.Advances b) (h' : b.Advances c) :
    a.Advances c :=
  ⟨h'.results.trans h.results, h'.values.trans h.values, Nat.lt_trans h'.cost h.cost⟩

/-- Serves what is left of a course. -/
def Progress.serve (values : String → Option V) : Progress (Stage E V R) R → Served V R
  | .ready result => ⟨[result], 0, values⟩
  | .waiting stage => stage.course.serve stage.phase values

/-- Serves what is left of a batch, one course after the other. -/
def serveAll : List (Progress (Stage E V R) R) → (String → Option V) → Served V R
  | [], values => ⟨[], 0, values⟩
  | progress :: rest, values =>
    let first := progress.serve values
    first.append (serveAll rest first.values)

/-- All computations of one key that are left have one outcome. -/
def Progress.Only (key : String) (outcome : Except E V) : Progress (Stage E V R) R → Prop
  | .ready _ => True
  | .waiting stage => stage.course.Only key outcome

/-- A batch is served in two parts, the second one with the values that the first one leaves. -/
theorem serveAll_append (first second : List (Progress (Stage E V R) R))
    (values : String → Option V) :
    serveAll (first ++ second) values
      = (serveAll first values).append (serveAll second (serveAll first values).values) := by
  induction first generalizing values with
  | nil => simp [serveAll, Served.append]
  | cons progress rest ih =>
    simp [serveAll, Served.append, ih, Nat.add_assoc]

/-- A batch advances if one of it does, and those before come to the same. -/
theorem serveAll_advances {done : List (Progress (Stage E V R) R)}
    {progress progress' : Progress (Stage E V R) R} {values values' : String → Option V}
    (hr : (serveAll done values').results = (serveAll done values).results)
    (hc : (serveAll done values').cost = (serveAll done values).cost)
    (h : (progress.serve (serveAll done values).values).Advances
      (progress'.serve (serveAll done values').values))
    (rest : List (Progress (Stage E V R) R)) :
    (serveAll (done ++ progress :: rest) values).Advances
      (serveAll (done ++ progress' :: rest) values') := by
  simp only [serveAll_append, serveAll, Served.append, hr, hc, h.values]
  refine ⟨?_, rfl, ?_⟩
  · simp only [h.results]
  · have hlt := h.cost
    show _ < _
    simp only
    omega

/-- A batch whose computations for a key have one outcome comes to the same if that was learned
before. -/
theorem serveAll_learn {key : String} {outcome : Except E V}
    {batch : List (Progress (Stage E V R) R)} (h : ∀ progress ∈ batch, progress.Only key outcome)
    {values : String → Option V} (hv : Memo.answer values key outcome = outcome) :
    serveAll batch (Memo.learn values key outcome)
        = { serveAll batch values with
            values := Memo.learn (serveAll batch values).values key outcome }
      ∧ Memo.answer (serveAll batch values).values key outcome = outcome := by
  induction batch generalizing values with
  | nil => exact ⟨rfl, hv⟩
  | cons progress rest ih =>
    have hrest := fun other ho => h other (List.mem_cons_of_mem _ ho)
    have hfirst := h progress (List.mem_cons_self ..)
    have hserve : progress.serve (Memo.learn values key outcome)
          = { progress.serve values with
              values := Memo.learn (progress.serve values).values key outcome }
        ∧ Memo.answer (progress.serve values).values key outcome = outcome := by
      cases progress with
      | ready result => exact ⟨rfl, hv⟩
      | waiting stage => exact Course.serve_learn hfirst stage.phase hv
    obtain ⟨hs, ha⟩ := hserve
    obtain ⟨hs', ha'⟩ := ih hrest ha
    simp only [serveAll, Served.append, hs, hs']
    exact ⟨trivial, ha'⟩

/-- A value that is there stays, whatever batch is served. -/
theorem serveAll_values {batch : List (Progress (Stage E V R) R)} {values : String → Option V}
    {key : String} {value : V} (h : values key = some value) :
    (serveAll batch values).values key = some value := by
  induction batch generalizing values with
  | nil => exact h
  | cons progress rest ih =>
    refine ih ?_
    cases progress with
    | ready result => exact h
    | waiting stage => exact Course.serve_values stage.phase h

end QueryEngine
