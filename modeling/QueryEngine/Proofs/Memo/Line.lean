import Mathlib.Data.List.Nodup
import QueryEngine.Memo

/-!
# Lines at a memo

The lookups of a key that have not ended stand in line at its cell: the first one computes or is
called to, the others wait behind it in order of their tickets, and once the key has a value all of
them are called (`MemoCell.Serves`). A poll of a lookup is one of three things (`Memo.polled`): the
lookup is not called and nothing happens, it gets on, or it ends. It ends with the value of the key
if there is one, else as its own computation does, and that is the first of the line.
-/

namespace QueryEngine

variable {E V : Type}

namespace LookupPhase

/-- The place in a line; a fresh lookup has none. -/
def place : LookupPhase → List LookupPhase
  | .fresh => []
  | .waiting ticket => [.waiting ticket]
  | .computing polls => [.computing polls]

/-- More than the polls to come for a lookup that is always called, if computing takes `polls`. -/
def left (polls : Nat) : LookupPhase → Nat
  | .fresh => polls + 3
  | .waiting _ => polls + 2
  | .computing n => n + 1

end LookupPhase

/-- The line of lookups that a cell serves. -/
inductive MemoCell.Serves : MemoCell V → List LookupPhase → Prop
  | kept (value : V) (tickets : List Nat) :
    Serves { value? := some value } (tickets.map .waiting)
  | idle : Serves {} []
  | called {ticket : Nat} {waiting : List Nat} (h : (ticket :: waiting).Nodup) :
    Serves { holder? := some ticket, waiting } ((ticket :: waiting).map .waiting)
  | computing {polls ticket : Nat} {waiting : List Nat} (h : (ticket :: waiting).Nodup) :
    Serves { holder? := some ticket, waiting } (.computing polls :: waiting.map .waiting)

/-- A new ticket goes to the end of the line. -/
theorem MemoCell.Serves.enqueue {cell : MemoCell V} {line : List LookupPhase} {holder new : Nat}
    (h : cell.Serves line) (hh : cell.holder? = some holder) (hn : new ∉ holder :: cell.waiting) :
    { cell with waiting := cell.waiting ++ [new] }.Serves (line ++ [LookupPhase.waiting new]) := by
  cases h with
  | kept value tickets => cases hh
  | idle => cases hh
  | @called ticket waiting hd =>
    cases hh
    have hd' : (holder :: (waiting ++ [new])).Nodup := by
      simpa using hd.concat hn
    simpa using called hd'
  | @computing polls ticket waiting hd =>
    cases hh
    have hd' : (holder :: (waiting ++ [new])).Nodup := by
      simpa using hd.concat hn
    simpa using computing hd'

namespace Memo

/-! ## Cells -/

@[simp] theorem cell_setCell (memo : Memo V) (key : String) (cell : MemoCell V) :
    (memo.setCell key cell).cell key = cell := by
  simp [Memo.cell, setCell, Entries.lookup_put_self]

/-- Setting the cell of one key leaves the cells of the others. -/
theorem cell_setCell_of_ne {key other : String} (h : other ≠ key) (memo : Memo V)
    (cell : MemoCell V) : (memo.setCell key cell).cell other = memo.cell other := by
  simp [Memo.cell, setCell, Entries.lookup_put_of_ne h]

/-- The tickets at every key were given out. -/
def Bounded (memo : Memo V) : Prop :=
  ∀ key, ∀ ticket ∈ (memo.cell key).holder?.toList ++ (memo.cell key).waiting,
    ticket < memo.tickets

/-- Nobody looks anything up. -/
def Idle (memo : Memo V) : Prop :=
  ∀ key, (memo.cell key).Serves []

/-- The second memo differs from the first one in one cell at most, and its tickets were given
out. -/
structure Touched (key : String) (memo memo' : Memo V) : Prop where
  cell_eq : ∀ other, other ≠ key → memo'.cell other = memo.cell other
  bounded : memo'.Bounded

/-- Where nobody looks anything up, all tickets were given out. -/
theorem Idle.bounded {memo : Memo V} (h : memo.Idle) : memo.Bounded := by
  intro key ticket ht
  have hserves := h key
  generalize memo.cell key = cell at hserves ht
  generalize hline : ([] : List LookupPhase) = line at hserves
  cases hserves with
  | kept value tickets => cases ht
  | idle => cases ht
  | called hn => cases hline
  | computing hn => cases hline

/-- Memos that were touched at one key twice were touched at that key. -/
theorem Touched.trans {key : String} {a b c : Memo V} (h : Touched key a b)
    (h' : Touched key b c) : Touched key a c :=
  ⟨fun other ho => (h'.cell_eq other ho).trans (h.cell_eq other ho), h'.bounded⟩

/-- A cell may be changed if its tickets were given out. -/
theorem touched_setCell {memo : Memo V} (hb : memo.Bounded) {key : String} {cell : MemoCell V}
    {tickets : Nat} (hle : memo.tickets ≤ tickets)
    (hc : ∀ ticket ∈ cell.holder?.toList ++ cell.waiting, ticket < tickets) :
    Touched key memo ({ memo with tickets }.setCell key cell) := by
  have hcell : ∀ other, other ≠ key →
      ({ memo with tickets }.setCell key cell).cell other = memo.cell other :=
    fun other ho => cell_setCell_of_ne ho _ _
  refine ⟨hcell, ?_⟩
  intro other ticket ht
  by_cases ho : other = key
  · subst ho
    rw [cell_setCell] at ht
    exact hc ticket ht
  · rw [hcell other ho] at ht
    exact Nat.lt_of_lt_of_le (hb other ticket ht) hle

/-! ## Polls -/

/-- A memo that is the whole world. -/
def whole : Place (Memo V) V := ⟨id, fun memo _ => memo⟩

end Memo

/-- A computation that does nothing but take its time and end. -/
def Computation.settled (polls : Nat) (outcome : Except E V) : Computation (Memo V) E V :=
  ⟨polls, id, id, fun memo => (outcome, memo)⟩

namespace Memo

/-- What a lookup ends with: the value of its key, or else what its own computation ends with. -/
def answer (values : String → Option V) (key : String) (outcome : Except E V) : Except E V :=
  match values key with
  | some value => .ok value
  | none => outcome

/-- What a poll may do with a lookup that stands in line between others. -/
inductive Polled (memo : Memo V) (key : String) (polls : Nat) (outcome : Except E V)
    (phase : LookupPhase) (before after : List LookupPhase) :
    Progress LookupPhase (Except E V) × Memo V → Prop
  /-- The lookup is not called, and nothing happens. -/
  | stuck {ticket : Nat} (hp : phase = .waiting ticket) (hv : memo.get? key = none)
    (hh : (memo.cell key).holder? ≠ some ticket) :
    Polled memo key polls outcome phase before after (.waiting phase, memo)
  /-- The lookup gets on. -/
  | moved {phase' : LookupPhase} {memo' : Memo V} (hp : phase'.place = [phase'])
    (hl : phase'.left polls < phase.left polls) (hv : memo'.get? key = memo.get? key)
    (hs : (memo'.cell key).Serves (before ++ phase' :: after)) (ht : Touched key memo memo') :
    Polled memo key polls outcome phase before after (.waiting phase', memo')
  /-- The lookup ends. -/
  | ended {result : Except E V} {memo' : Memo V} (hr : result = answer memo.get? key outcome)
    (hb : memo.get? key = none → before = []) (hv : memo'.get? key = result.toOption)
    (hs : (memo'.cell key).Serves (before ++ after)) (ht : Touched key memo memo') :
    Polled memo key polls outcome phase before after (.ready result, memo')

section
variable {base memo : Memo V} {key : String} {polls : Nat} {outcome : Except E V}
  {phase : LookupPhase} {ticket : Nat} {waiting : List Nat}

/-- The first of the line ends as its computation does, and calls the next one. -/
theorem polled_finish (ht : Touched key base memo) (hg : base.get? key = none)
    (hc : memo.cell key = { holder? := some ticket, waiting }) (hn : waiting.Nodup) :
    Polled base key polls outcome phase [] (waiting.map .waiting)
      (finish whole key (.settled polls outcome) memo) := by
  have hanswer : outcome = answer base.get? key outcome := by simp [answer, hg]
  have hbound : ∀ other ∈ waiting, other < memo.tickets := by
    intro other ho
    exact ht.bounded key other (by simp [hc, ho])
  have htouched : ∀ {cell : MemoCell V}, (∀ other ∈ cell.holder?.toList ++ cell.waiting,
      other < memo.tickets) → Touched key base (memo.setCell key cell) :=
    fun hcell => ht.trans (touched_setCell ht.bounded (Nat.le_refl _) hcell)
  cases outcome with
  | ok value =>
    show Polled base key polls _ phase [] _
      (.ready (.ok value), memo.setCell key { value? := some value })
    refine .ended hanswer (fun _ => rfl) ?_ ?_ (htouched (by simp))
    · simp [get?, Except.toOption]
    · simpa using MemoCell.Serves.kept value waiting
  | error error =>
    show Polled base key polls _ phase [] _ (.ready (.error error), memo.fail key)
    unfold fail
    rw [hc]
    cases waiting with
    | nil =>
      refine .ended hanswer (fun _ => rfl) ?_ ?_ (htouched (by simp))
      · simp [get?, Except.toOption]
      · simpa using MemoCell.Serves.idle
    | cons next rest =>
      refine .ended hanswer (fun _ => rfl) ?_ ?_ (htouched (by simpa using hbound))
      · simp [get?, Except.toOption]
      · simpa using MemoCell.Serves.called hn

/-- The first of the line begins to compute when it is called. -/
theorem polled_start (ht : Touched key base memo) (hg : base.get? key = none)
    (hc : memo.cell key = { holder? := some ticket, waiting }) (hn : (ticket :: waiting).Nodup)
    (hl : polls + 1 < phase.left polls) :
    Polled base key polls outcome phase [] (waiting.map .waiting)
      (start whole key (.settled polls outcome) memo) := by
  show Polled base key polls outcome phase [] _
    (if polls = 0 then finish whole key (.settled polls outcome) memo
      else (.waiting (.computing polls), memo))
  split
  · exact polled_finish ht hg hc (List.nodup_cons.1 hn).2
  · refine .moved rfl hl ?_ ?_ ht
    · rw [hg]
      simp [get?, hc]
    · rw [hc]
      exact .computing hn

/-- A lookup that enters touches its own key only, and its ticket is a new one. -/
theorem touched_enter (hb : memo.Bounded) {cell : MemoCell V}
    (hc : ∀ other ∈ cell.holder?.toList ++ cell.waiting, other < memo.tickets + 1) :
    Touched key memo ({ memo with tickets := memo.tickets + 1 }.setCell key cell) :=
  touched_setCell hb (Nat.le_succ _) hc

/-- While somebody computes, a fresh lookup goes to the end of the line. -/
theorem polled_enqueue {line : List LookupPhase} (hb : memo.Bounded)
    (hs : (memo.cell key).Serves line) (hv : (memo.cell key).value? = none)
    (hh : (memo.cell key).holder? = some ticket) :
    Polled memo key polls outcome .fresh line []
      (Memo.poll whole key (.settled polls outcome) .fresh memo) := by
  have hlt : ∀ other ∈ ticket :: (memo.cell key).waiting, other < memo.tickets := by
    simpa [hh] using hb key
  have hnew : memo.tickets ∉ ticket :: (memo.cell key).waiting :=
    fun hm => Nat.lt_irrefl _ (hlt _ hm)
  show Polled memo key polls outcome .fresh line []
    (take whole key (.settled polls outcome) (memo.enter key).1 (memo.enter key).2.1
      (memo.enter key).2.2)
  simp only [enter, hv, hh]
  refine .moved rfl (Nat.lt_succ_self _) ?_ ?_ (touched_enter hb ?_)
  · simp [get?, hv]
  · simpa [hh, hv] using hs.enqueue hh hnew
  · intro other ho
    rw [← List.append_assoc] at ho
    rcases List.mem_append.1 ho with ho | ho
    · exact Nat.lt_succ_of_lt (hb key other (by simpa [hh] using ho))
    · rw [List.mem_singleton.1 ho]
      exact Nat.lt_succ_self _

/-- A fresh lookup is answered, computes or goes to the end of the line. -/
theorem polled_fresh {line : List LookupPhase} (hb : memo.Bounded)
    (hs : (memo.cell key).Serves line) :
    Polled memo key polls outcome .fresh line []
      (Memo.poll whole key (.settled polls outcome) .fresh memo) := by
  have hserves := hs
  generalize hc : memo.cell key = cell at hs
  cases hs with
  | kept value tickets =>
    show Polled memo key polls outcome .fresh _ []
      (take whole key (.settled polls outcome) (memo.enter key).1 (memo.enter key).2.1
        (memo.enter key).2.2)
    simp only [enter, hc]
    refine .ended ?_ ?_ ?_ ?_ (touched_enter hb (by simp))
    · simp [answer, get?, hc]
    · simp [get?, hc]
    · simp [get?, Except.toOption]
    · simpa using MemoCell.Serves.kept value tickets
  | idle =>
    have hcell := cell_setCell { memo with tickets := memo.tickets + 1 } key
      { holder? := some memo.tickets }
    show Polled memo key polls outcome .fresh [] []
      (take whole key (.settled polls outcome) (memo.enter key).1 (memo.enter key).2.1
        (memo.enter key).2.2)
    simp only [enter, hc]
    refine polled_start (touched_enter hb (by simp)) ?_ hcell (by simp) ?_
    · simp [get?, hc]
    · show polls + 1 < polls + 3
      omega
  | called hn => exact polled_enqueue hb hserves (by rw [hc]) (by rw [hc])
  | computing hn => exact polled_enqueue hb hserves (by rw [hc]) (by rw [hc])

/-- A ticket that waits somewhere in the line is one of those that wait. -/
theorem mem_of_map_waiting_eq {before after : List LookupPhase}
    (h : waiting.map .waiting = before ++ .waiting ticket :: after) : ticket ∈ waiting := by
  have hm : LookupPhase.waiting ticket ∈ waiting.map LookupPhase.waiting := by simp [h]
  simpa using hm

/-- A lookup that waits is answered, or begins to compute if it is called. -/
theorem polled_waiting {before after : List LookupPhase} (hb : memo.Bounded)
    (hs : (memo.cell key).Serves (before ++ .waiting ticket :: after)) :
    Polled memo key polls outcome (.waiting ticket) before after
      (Memo.poll whole key (.settled polls outcome) (.waiting ticket) memo) := by
  have hsame : Touched key memo memo := ⟨fun _ _ => rfl, hb⟩
  have hstuck : ∀ {holder : Nat} {waiting : List Nat} {rest : List LookupPhase},
      memo.cell key = { holder? := some holder, waiting } → (holder :: waiting).Nodup →
        waiting.map .waiting = rest ++ .waiting ticket :: after →
          Polled memo key polls outcome (.waiting ticket) before after
            (take whole key (.settled polls outcome) (memo.turn key ticket) ticket memo) := by
    intro holder waiting rest hc hn hwaiting
    have hne : ticket ≠ holder := by
      rintro rfl
      exact (List.nodup_cons.1 hn).1 (mem_of_map_waiting_eq hwaiting)
    have hh : (memo.cell key).holder? ≠ some ticket := by
      rw [hc]
      exact fun h => hne (Option.some.inj h).symm
    have hturn : memo.turn key ticket = .wait := by
      simp [turn, hc, hne.symm]
    rw [hturn]
    exact .stuck rfl (by simp [get?, hc]) hh
  show Polled memo key polls outcome (.waiting ticket) before after
    (take whole key (.settled polls outcome) (memo.turn key ticket) ticket memo)
  generalize hc : memo.cell key = cell at hs
  generalize hline : before ++ .waiting ticket :: after = line at hs
  cases hs with
  | kept value tickets =>
    obtain ⟨first, others, rfl, hfirst, hothers⟩ := List.map_eq_append_iff.1 hline.symm
    obtain ⟨_, rest, rfl, -, hrest⟩ := List.map_eq_cons_iff.1 hothers
    have hturn : memo.turn key ticket = .answer value := by simp [turn, hc]
    rw [hturn]
    refine .ended ?_ ?_ ?_ ?_ hsame
    · simp [answer, get?, hc]
    · simp [get?, hc]
    · simp [get?, hc, Except.toOption]
    · rw [hc, ← hfirst, ← hrest, ← List.map_append]
      exact .kept value _
  | idle => simp at hline
  | @called holder waiting hn =>
    cases before with
    | nil =>
      obtain ⟨hticket, rfl⟩ := List.cons.inj hline
      obtain rfl : ticket = holder := LookupPhase.waiting.inj hticket
      have hturn : memo.turn key ticket = .compute := by simp [turn, hc]
      rw [hturn]
      refine polled_start hsame (by simp [get?, hc]) hc hn ?_
      show polls + 1 < polls + 2
      omega
    | cons first rest => exact hstuck hc hn (List.cons.inj hline).2.symm
  | @computing _ holder waiting hn =>
    cases before with
    | nil => cases hline
    | cons first rest => exact hstuck hc hn (List.cons.inj hline).2.symm

/-- A lookup that computes gets on, or ends. -/
theorem polled_computing {n : Nat} {before after : List LookupPhase} (hb : memo.Bounded)
    (hs : (memo.cell key).Serves (before ++ .computing n :: after)) :
    Polled memo key polls outcome (.computing n) before after
      (Memo.poll whole key (.settled polls outcome) (.computing n) memo) := by
  have hsame : Touched key memo memo := ⟨fun _ _ => rfl, hb⟩
  have hwaiting : ∀ {tickets : List Nat} {before : List LookupPhase},
      tickets.map .waiting ≠ before ++ .computing n :: after := by
    intro tickets before h
    have hm : LookupPhase.computing n ∈ tickets.map LookupPhase.waiting := by simp [h]
    simp at hm
  generalize hc : memo.cell key = cell at hs
  generalize hline : before ++ .computing n :: after = line at hs
  cases hs with
  | kept value tickets => exact absurd hline.symm hwaiting
  | idle => simp at hline
  | called hn => exact absurd hline.symm hwaiting
  | @computing _ holder waiting hn =>
    cases before with
    | cons first rest => exact absurd (List.cons.inj hline).2.symm hwaiting
    | nil =>
      obtain ⟨hpolls, rfl⟩ := List.cons.inj hline
      obtain rfl : n = _ := LookupPhase.computing.inj hpolls
      have hg : memo.get? key = none := by simp [get?, hc]
      show Polled memo key polls outcome (.computing n) [] _
        (if n ≤ 1 then finish whole key (.settled polls outcome) memo
          else (.waiting (.computing (n - 1)), memo))
      split
      · exact polled_finish hsame hg hc (List.nodup_cons.1 hn).2
      · refine .moved rfl ?_ rfl ?_ hsame
        · show n - 1 + 1 < n + 1
          omega
        · rw [hc]
          exact .computing hn

/-- A poll of a lookup that stands in line is one of the three things it may be. A fresh one takes
its place at the end. -/
theorem polled {before after : List LookupPhase} (hb : memo.Bounded)
    (hs : (memo.cell key).Serves (before ++ phase.place ++ after))
    (hf : phase = .fresh → after = []) :
    Polled memo key polls outcome phase before after
      (Memo.poll whole key (.settled polls outcome) phase memo) := by
  cases phase with
  | fresh =>
    obtain rfl := hf rfl
    simp only [LookupPhase.place, List.append_nil] at hs
    exact polled_fresh hb hs
  | waiting ticket =>
    rw [List.append_assoc] at hs
    exact polled_waiting hb hs
  | computing n =>
    rw [List.append_assoc] at hs
    exact polled_computing hb hs

end

end Memo

end QueryEngine
