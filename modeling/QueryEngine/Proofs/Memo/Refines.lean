import QueryEngine.Proofs.Memo.History
import QueryEngine.Proofs.Memo.Line

/-!
# Cells that serve as desks do

The memo of a scene refines desks (`Refines`) if each cell serves those at the desk of its key: a
kept value, or the tickets of those in line with the first one called. Whatever a memo does with a
lookup the desks do too: a lookup takes its turn (`Refines.turn_fresh`, `Refines.turn_waiting`), its
computation comes to an outcome (`Refines.finish`), it is dropped (`Refines.drop`), or all are
(`Refines.release`).
-/

namespace QueryEngine.Memo

variable {W E V : Type}

/-! ## Cells and desks -/

/-- How far a lookup is that has this phase. -/
def Standing.ofPhase : Option LookupPhase → Standing
  | none => .ended
  | some .fresh => .fresh
  | some (.waiting _) => .waiting
  | some (.computing _) => .computing

/-- The cell serves those at the desk: its tickets are theirs, and the ticket of the first one is
called. -/
inductive Desk.Served (phase? : Nat → Option LookupPhase) : Desk V → MemoCell V → Prop
  | kept (value : V) : Served phase? (.kept value) { value? := some value }
  | idle : Served phase? (.line []) {}
  | called {first ticket : Nat} {rest tickets : List Nat} (hn : (ticket :: tickets).Nodup)
    (hf : phase? first = some (.waiting ticket) ∨ ∃ polls, phase? first = some (.computing polls))
    (hr : rest.map phase? = tickets.map fun ticket => some (.waiting ticket)) :
    Served phase? (.line (first :: rest)) { holder? := some ticket, waiting := tickets }

section
variable {phase? : Nat → Option LookupPhase} {lookup ticket : Nat} {rest tickets : List Nat}

/-- A change to a lookup that is not among them leaves the phases of the others. -/
theorem map_phase_update (hn : lookup ∉ rest) (new : Option LookupPhase) :
    rest.map (Function.update phase? lookup new) = rest.map phase? := by
  refine List.map_congr_left fun other ho => ?_
  exact Function.update_of_ne (fun he : other = lookup => hn (he ▸ ho)) ..

/-- A lookup that waits among others holds one of their tickets. -/
theorem mem_tickets (hr : rest.map phase? = tickets.map fun ticket => some (.waiting ticket))
    (hl : lookup ∈ rest) (hp : phase? lookup = some (.waiting ticket)) : ticket ∈ tickets := by
  have hm : phase? lookup ∈ rest.map phase? := List.mem_map_of_mem hl
  rw [hp, hr] at hm
  simpa using hm

/-- The ticket of a lookup in line is called if the lookup is the first one. -/
theorem called_eq_iff {first called : Nat} (hn : (called :: tickets).Nodup)
    (hf : phase? first = some (.waiting called) ∨ ∃ polls, phase? first = some (.computing polls))
    (hr : rest.map phase? = tickets.map fun ticket => some (.waiting ticket))
    (hl : lookup ∈ first :: rest) (hp : phase? lookup = some (.waiting ticket)) :
    called = ticket ↔ first = lookup := by
  constructor
  · rintro rfl
    by_contra hne
    have hrest : lookup ∈ rest := (List.mem_cons.1 hl).resolve_left (Ne.symm hne)
    exact (List.nodup_cons.1 hn).1 (mem_tickets hr hrest hp)
  · rintro rfl
    rcases hf with hf | ⟨polls, hf⟩
    · simpa [hp, eq_comm] using hf
    · simp [hp] at hf

/-- A lookup that leaves the line takes its ticket with it. -/
theorem map_phase_erase (hr : rest.map phase? = tickets.map fun ticket => some (.waiting ticket))
    (hn : tickets.Nodup) (hp : phase? lookup = some (.waiting ticket)) (hl : lookup ∈ rest) :
    (rest.erase lookup).map phase?
      = (tickets.erase ticket).map fun ticket => some (.waiting ticket) := by
  induction rest generalizing tickets with
  | nil => cases hl
  | cons first rest ih =>
    cases tickets with
    | nil => cases hr
    | cons next tickets =>
      obtain ⟨hfirst, hrest⟩ := List.cons.inj hr
      by_cases hf : first = lookup
      · subst hf
        obtain rfl : ticket = next := by simpa [hp] using hfirst
        simpa using hrest
      · have hmem := (List.mem_cons.1 hl).resolve_left (Ne.symm hf)
        have hne : next ≠ ticket := by
          rintro rfl
          exact (List.nodup_cons.1 hn).1 (mem_tickets hrest hmem hp)
        rw [List.erase_cons_tail (by simpa using hf), List.erase_cons_tail (by simpa using hne),
          List.map_cons, List.map_cons, hfirst, ih hrest (List.nodup_cons.1 hn).2 hmem]

/-- A change to a lookup that does not stand at the desk leaves those served who do. -/
theorem Desk.Served.update {desk : Desk V} {cell : MemoCell V} (h : desk.Served phase? cell)
    (hn : lookup ∉ desk.members) (new : Option LookupPhase) :
    desk.Served (Function.update phase? lookup new) cell := by
  cases h with
  | kept value => exact .kept value
  | idle => exact .idle
  | @called first ticket rest tickets hd hf hr =>
    obtain ⟨hfirst, hrest⟩ := not_or.1 (List.mem_cons.not.1 hn)
    refine .called hd ?_ (by rwa [map_phase_update hrest])
    rwa [Function.update_of_ne (Ne.symm hfirst)]

/-- When the first of a line fails or leaves, the next one is called. -/
theorem served_fail {memo : Memo V} {key : String} (hb : memo.Bounded)
    (hc : memo.cell key = { holder? := some ticket, waiting := tickets })
    (hn : (ticket :: tickets).Nodup)
    (hr : rest.map phase? = tickets.map fun ticket => some (.waiting ticket)) :
    (Desk.line rest).Served phase? ((memo.fail key).cell key)
      ∧ Touched key memo (memo.fail key) := by
  have hbound : ∀ other ∈ tickets, other < memo.tickets := by
    intro other ho
    exact hb key other (by simp [hc, ho])
  unfold fail
  rw [hc]
  cases tickets with
  | nil =>
    obtain rfl : rest = [] := by simpa using hr
    refine ⟨?_, touched_setCell hb (Nat.le_refl _) (by simp)⟩
    simpa using Desk.Served.idle
  | cons next tickets =>
    cases rest with
    | nil => cases hr
    | cons first rest =>
      obtain ⟨hfirst, hrest⟩ := List.cons.inj hr
      refine ⟨?_, touched_setCell hb (Nat.le_refl _) (by simpa using hbound)⟩
      rw [cell_setCell]
      exact .called (List.nodup_cons.1 hn).2 (.inl hfirst) hrest

end

/-- Once nobody is polled any more only the values are left. -/
theorem cell_release (memo : Memo V) (key : String) :
    memo.release.cell key = { value? := (memo.cell key).value? } := by
  unfold cell release
  induction memo.cells with
  | nil => rfl
  | cons entry rest ih =>
    obtain ⟨other, cell⟩ := entry
    simp only [List.map_cons, List.lookup_cons]
    cases key == other with
    | true => rfl
    | false => exact ih

/-! ## Turns -/

namespace Scene

/-- The turn of a lookup that does not compute, its ticket, and the scene once it has entered. -/
def turn (place : Place W V) (key : String) (phase : LookupPhase) (scene : Scene W E V) :
    MemoTurn V × Nat × Scene W E V :=
  match phase with
  | .fresh =>
    let (turn, ticket, memo) := (place.get scene.world).enter key
    (turn, ticket, { scene with world := place.set memo scene.world })
  | .waiting ticket => ((place.get scene.world).turn key ticket, ticket, scene)
  | .computing _ => (.wait, 0, scene)

/-- The scene after the turn, where the computation has not begun. -/
def taken (lookup polls : Nat) : MemoTurn V × Nat × Scene W E V → Scene W E V
  | (.answer value, _, scene) => record lookup (.ready (.ok value), scene)
  | (.compute, _, scene) => scene.begin lookup polls
  | (.wait, ticket, scene) => record lookup (.waiting (.waiting ticket), scene)

/-- The scene after the computation of a lookup came to an outcome. -/
def finished (place : Place W V) (key : String) (lookup : Nat) (outcome : Except E V)
    (scene : Scene W E V) : Scene W E V where
  world := place.set
    (match outcome with
      | .ok value => (place.get scene.world).succeed key value
      | .error _ => (place.get scene.world).fail key) scene.world
  phase? := Function.update scene.phase? lookup none
  notes := scene.notes ++ [.computed lookup outcome, .answered lookup outcome]

end Scene

/-- The memo of the scene serves the lookups as the desks do. -/
structure Refines (place : Place W V) (keys : Nat → String) (scene : Scene W E V)
    (desks : Desks E V) : Prop where
  orderly : desks.Orderly keys
  standing : ∀ lookup, desks.standing lookup = .ofPhase (scene.phase? lookup)
  notes : scene.notes = desks.notes
  served : ∀ key, (desks.desk key).Served scene.phase? ((place.get scene.world).cell key)
  bounded : (place.get scene.world).Bounded

namespace Refines

variable {place : Place W V} {keys : Nat → String} {scene : Scene W E V} {desks : Desks E V}
  {lookup : Nat}

/-- A lookup that is not in line is not a member of any desk. -/
theorem not_mem (h : Refines place keys scene desks) {key : String}
    (hk : key = keys lookup → desks.standing lookup ≠ .waiting
      ∧ desks.standing lookup ≠ .computing) : lookup ∉ (desks.desk key).members := by
  have hlined := h.orderly.lined key
  cases hd : desks.desk key with
  | kept value => exact List.not_mem_nil
  | line lookups =>
    rw [hd] at hlined
    intro hm
    obtain ⟨hkey, hs⟩ := (hlined.2.1 lookup).1 hm
    obtain ⟨hw, hc⟩ := hk hkey.symm
    rcases hs with hs | hs
    · exact hw hs
    · exact hc hs

/-- After one lookup was at its desk. -/
theorem put (h : Refines place keys scene desks) {visit : Visit E V} {scene' : Scene W E V}
    {phase? : Option LookupPhase} {memo : Memo V} (ho : (desks.put keys lookup visit).Orderly keys)
    (hs : visit.standing = .ofPhase phase?)
    (hp : scene'.phase? = Function.update scene.phase? lookup phase?)
    (hn : scene'.notes = scene.notes ++ visit.notes) (hm : place.get scene'.world = memo)
    (ht : Touched (keys lookup) (place.get scene.world) memo)
    (hd : visit.desk.Served (Function.update scene.phase? lookup phase?)
      (memo.cell (keys lookup))) :
    Refines place keys scene' (desks.put keys lookup visit) where
  orderly := ho
  standing other := by
    rw [hp, Desks.put]
    by_cases hother : other = lookup
    · simp [hother, hs]
    · simp [hother, h.standing]
  notes := by rw [hn, h.notes, Desks.put]
  served key := by
    rw [hp, hm, Desks.put]
    by_cases hkey : key = keys lookup
    · subst hkey
      simpa using hd
    · simp only [Function.update_of_ne hkey]
      rw [ht.cell_eq key hkey]
      exact (h.served key).update (h.not_mem fun he => absurd he hkey) _
  bounded := hm ▸ ht.bounded

/-- A fresh lookup takes its turn. -/
theorem turn_fresh (hp : ∀ memo world, place.get (place.set memo world) = memo)
    (h : Refines place keys scene desks) (hphase : scene.phase? lookup = some .fresh)
    (polls : Nat) :
    Refines place keys (Scene.taken lookup polls (scene.turn place (keys lookup) .fresh))
      (desks.act keys (.turn lookup)) := by
  have hs : desks.standing lookup = .fresh := by rw [h.standing, hphase, Standing.ofPhase]
  have ho := h.orderly.act (.turn lookup)
  have hmem : lookup ∉ (desks.desk (keys lookup)).members := h.not_mem fun _ => by simp [hs]
  have hserved := h.served (keys lookup)
  have hb := h.bounded
  rw [Desks.act, hs, Desk.turn] at ho ⊢
  simp only [Scene.turn, enter]
  generalize hcell : (place.get scene.world).cell (keys lookup) = cell at hserved
  generalize desks.desk (keys lookup) = desk at hserved ho hmem ⊢
  cases hserved with
  | kept value =>
    refine h.put ho rfl rfl rfl (hp _ _) (touched_enter hb (by simp)) ?_
    rw [cell_setCell]
    exact .kept value
  | idle =>
    have hjoin : ((Desk.line []).join lookup).take lookup
        = (⟨.line [lookup], .computing, [.started lookup]⟩ : Visit E V) := by
      simp [Desk.join, Desk.take]
    rw [hjoin] at ho ⊢
    refine h.put ho rfl rfl rfl (hp _ _) (touched_enter hb (by simp)) ?_
    rw [cell_setCell]
    exact .called (List.nodup_singleton _) (.inr ⟨polls, Function.update_self ..⟩) rfl
  | @called first ticket rest tickets hn hf hr =>
    obtain ⟨hfirst, hrest⟩ := not_or.1 (List.mem_cons.not.1 hmem)
    have hjoin : ((Desk.line (first :: rest)).join lookup).take lookup
        = (⟨.line (first :: (rest ++ [lookup])), .waiting, []⟩ : Visit E V) := by
      simp [Desk.join, Desk.take, Ne.symm hfirst]
    have hlt : ∀ other ∈ ticket :: tickets, other < (place.get scene.world).tickets := by
      simpa [hcell] using hb (keys lookup)
    rw [hjoin] at ho ⊢
    have hnew : (place.get scene.world).tickets ∉ ticket :: tickets :=
      fun hmem => Nat.lt_irrefl _ (hlt _ hmem)
    refine h.put ho rfl rfl (by simp [Scene.taken, Scene.record]) (hp _ _) (touched_enter hb ?_) ?_
    · intro other hother
      have hcases : other ∈ ticket :: tickets ∨ other = (place.get scene.world).tickets := by
        simpa [or_assoc] using hother
      rcases hcases with hold | rfl
      · exact Nat.lt_succ_of_lt (hlt other hold)
      · exact Nat.lt_succ_self _
    · rw [cell_setCell]
      refine .called ?_ ?_ ?_
      · simpa using hn.concat hnew
      · rwa [Function.update_of_ne (Ne.symm hfirst)]
      · rw [List.map_append, List.map_append, map_phase_update hrest, hr]
        simp

/-- A lookup that waits takes its turn. -/
theorem turn_waiting {ticket : Nat} (h : Refines place keys scene desks)
    (hphase : scene.phase? lookup = some (.waiting ticket)) (polls : Nat) :
    Refines place keys (Scene.taken lookup polls (scene.turn place (keys lookup) (.waiting ticket)))
      (desks.act keys (.turn lookup)) := by
  have hs : desks.standing lookup = .waiting := by rw [h.standing, hphase, Standing.ofPhase]
  have ho := h.orderly.act (.turn lookup)
  have hlined := h.orderly.lined (keys lookup)
  have hserved := h.served (keys lookup)
  have hsame : place.get scene.world = place.get scene.world := rfl
  have htouched : Touched (keys lookup) (place.get scene.world) (place.get scene.world) :=
    ⟨fun _ _ => rfl, h.bounded⟩
  rw [Desks.act, hs, Desk.turn] at ho ⊢
  simp only [Scene.turn, Memo.turn]
  generalize hcell : (place.get scene.world).cell (keys lookup) = cell at hserved ⊢
  generalize desks.desk (keys lookup) = desk at hserved ho hlined ⊢
  cases hserved with
  | kept value => exact h.put ho rfl rfl rfl hsame htouched (by rw [hcell]; exact .kept value)
  | idle => exact absurd ((hlined.2.1 lookup).2 ⟨rfl, .inl hs⟩) List.not_mem_nil
  | @called first called rest tickets hn hf hr =>
    have hcalled := called_eq_iff hn hf hr ((hlined.2.1 lookup).2 ⟨rfl, .inl hs⟩) hphase
    by_cases hfirst : first = lookup
    · subst hfirst
      obtain rfl := hcalled.2 rfl
      have htake : (Desk.line (first :: rest)).take first
          = (⟨.line (first :: rest), .computing, [.started first]⟩ : Visit E V) := by
        simp [Desk.take]
      have hrest : first ∉ rest := (List.nodup_cons.1 hlined.1).1
      rw [htake] at ho ⊢
      simp only [if_pos]
      refine h.put ho rfl rfl rfl hsame htouched ?_
      rw [hcell]
      exact .called hn (.inr ⟨polls, Function.update_self ..⟩) (by rwa [map_phase_update hrest])
    · have hne : called ≠ ticket := fun he => hfirst (hcalled.1 he)
      have htake : (Desk.line (first :: rest)).take lookup
          = (⟨.line (first :: rest), .waiting, []⟩ : Visit E V) := by
        simp [Desk.take, hfirst]
      rw [htake] at ho ⊢
      simp only [Option.some.injEq, if_neg hne]
      refine h.put ho rfl rfl (by simp [Scene.taken, Scene.record]) hsame htouched ?_
      rw [hcell, Function.update_eq_self_iff.2 hphase.symm]
      exact .called hn hf hr

/-- A lookup that computes is the first in line. -/
theorem exists_line (h : Refines place keys scene desks)
    (hc : desks.standing lookup = .computing) :
    ∃ rest ticket tickets, desks.desk (keys lookup) = .line (lookup :: rest)
      ∧ (place.get scene.world).cell (keys lookup)
        = { holder? := some ticket, waiting := tickets }
      ∧ (ticket :: tickets).Nodup ∧ lookup ∉ rest
      ∧ rest.map scene.phase? = tickets.map fun ticket => some (.waiting ticket) := by
  have hlined := h.orderly.lined (keys lookup)
  have hserved := h.served (keys lookup)
  generalize (place.get scene.world).cell (keys lookup) = cell at hserved ⊢
  generalize desks.desk (keys lookup) = desk at hlined hserved ⊢
  cases hserved with
  | kept value => exact absurd hc (hlined lookup rfl)
  | idle => cases hlined.2.2 lookup rfl hc
  | @called first ticket rest tickets hn hf hr =>
    obtain rfl : first = lookup := Option.some.inj (hlined.2.2 lookup rfl hc)
    exact ⟨rest, ticket, tickets, rfl, rfl, hn, (List.nodup_cons.1 hlined.1).1, hr⟩

/-- A lookup that computes may have other polls to come. -/
theorem resume (h : Refines place keys scene desks) (hc : desks.standing lookup = .computing)
    (polls : Nat) :
    Refines place keys (Scene.record lookup (.waiting (.computing polls), scene)) desks := by
  obtain ⟨rest, ticket, tickets, hd, hcell, hn, hmem, hr⟩ := h.exists_line hc
  have hsame : place.get scene.world = place.get scene.world := rfl
  have hserved : (desks.desk (keys lookup)).Served
      (Function.update scene.phase? lookup (some (.computing polls)))
      ((place.get scene.world).cell (keys lookup)) := by
    rw [hd, hcell]
    exact .called hn (.inr ⟨polls, Function.update_self ..⟩) (by rwa [map_phase_update hmem])
  have hput : Refines place keys (Scene.record lookup (.waiting (.computing polls), scene))
      (desks.put keys lookup ⟨desks.desk (keys lookup), desks.standing lookup, []⟩) :=
    h.put (by rw [Desks.put_self]; exact h.orderly) (by exact hc) rfl (by simp [Scene.record])
      hsame ⟨fun _ _ => rfl, h.bounded⟩ hserved
  rwa [Desks.put_self] at hput

/-- A computation comes to an outcome. -/
theorem finish (hp : ∀ memo world, place.get (place.set memo world) = memo)
    (h : Refines place keys scene desks) (hc : desks.standing lookup = .computing)
    (outcome : Except E V) :
    Refines place keys (scene.finished place (keys lookup) lookup outcome)
      (desks.act keys (.finish lookup outcome)) := by
  obtain ⟨rest, ticket, tickets, hd, hcell, hn, hmem, hr⟩ := h.exists_line hc
  have ho := h.orderly.act (.finish lookup outcome)
  rw [Desks.act, hd, Desk.finish, if_pos hc] at ho ⊢
  refine h.put ho rfl rfl rfl (hp _ _) ?_ ?_
  · cases outcome with
    | ok value => exact touched_setCell h.bounded (Nat.le_refl _) (by simp)
    | error error => exact (served_fail h.bounded hcell hn hr).2
  · cases outcome with
    | ok value =>
      simp only [succeed, cell_setCell]
      exact .kept value
    | error error =>
      have hfail := (served_fail h.bounded hcell hn hr).1.update hmem none
      simpa [Desk.settle, Desk.leave] using hfail

/-- When a lookup that waits leaves, its ticket leaves the cell. -/
theorem served_leave_waiting {ticket : Nat} (h : Refines place keys scene desks)
    (hphase : scene.phase? lookup = some (.waiting ticket)) :
    let memo := place.get scene.world
    let left := memo.leave (keys lookup) (.waiting ticket)
    ((desks.desk (keys lookup)).leave lookup).Served (Function.update scene.phase? lookup none)
        (left.cell (keys lookup))
      ∧ Touched (keys lookup) memo left := by
  intro memo left
  have hs : desks.standing lookup = .waiting := by rw [h.standing, hphase, Standing.ofPhase]
  have hlined := h.orderly.lined (keys lookup)
  have hserved : (desks.desk (keys lookup)).Served scene.phase? (memo.cell (keys lookup)) :=
    h.served (keys lookup)
  have hb : memo.Bounded := h.bounded
  have hbound := hb (keys lookup)
  have hleft : left =
      if (memo.cell (keys lookup)).holder? = some ticket then memo.fail (keys lookup)
      else memo.setCell (keys lookup) { memo.cell (keys lookup) with
        waiting := (memo.cell (keys lookup)).waiting.erase ticket } := rfl
  rw [hleft]
  generalize desks.desk (keys lookup) = desk at hlined hserved ⊢
  generalize hcell : memo.cell (keys lookup) = cell at hserved hbound ⊢
  cases hserved with
  | kept value =>
    rw [if_neg (by simp), cell_setCell]
    exact ⟨.kept value, touched_setCell hb (Nat.le_refl _) (by simp)⟩
  | idle => exact absurd ((hlined.2.1 lookup).2 ⟨rfl, .inl hs⟩) List.not_mem_nil
  | @called first called rest tickets hn hf hr =>
    have hd := List.nodup_cons.1 hlined.1
    have hline := (hlined.2.1 lookup).2 ⟨rfl, .inl hs⟩
    have hcalled := called_eq_iff hn hf hr hline hphase
    by_cases hfirst : first = lookup
    · subst hfirst
      obtain rfl := hcalled.2 rfl
      obtain ⟨hfail, htouched⟩ := served_fail hb hcell hn hr
      rw [if_pos rfl]
      refine ⟨?_, htouched⟩
      simpa [Desk.leave] using hfail.update hd.1 none
    · have hmem : lookup ∈ rest := (List.mem_cons.1 hline).resolve_left (Ne.symm hfirst)
      have hne : called ≠ ticket := fun he => hfirst (hcalled.1 he)
      have htickets := (List.nodup_cons.1 hn).2
      have herase : (Desk.line (first :: rest) : Desk V).leave lookup
          = .line (first :: rest.erase lookup) := by
        rw [Desk.leave, List.erase_cons_tail (by simpa using hfirst)]
      rw [if_neg (by simpa using hne), cell_setCell, herase]
      refine ⟨.called (hn.sublist (List.erase_sublist.cons_cons called)) ?_ ?_,
        touched_setCell hb (Nat.le_refl _) ?_⟩
      · rwa [Function.update_of_ne hfirst]
      · rw [map_phase_update (by simp [hd.2.mem_erase_iff]),
          map_phase_erase hr htickets hphase hmem]
      · intro other hother
        refine hbound other ?_
        simp only [Option.toList_some, List.singleton_append, List.mem_cons] at hother ⊢
        exact hother.imp_right List.mem_of_mem_erase

/-- When a lookup leaves, the others are served. -/
theorem served_leave (h : Refines place keys scene desks) {phase : LookupPhase}
    (hphase : scene.phase? lookup = some phase) :
    let memo := place.get scene.world
    let left := memo.leave (keys lookup) phase
    ((desks.desk (keys lookup)).leave lookup).Served (Function.update scene.phase? lookup none)
        (left.cell (keys lookup))
      ∧ Touched (keys lookup) memo left := by
  intro memo left
  have hs : desks.standing lookup = .ofPhase (some phase) := by rw [h.standing, hphase]
  cases phase with
  | fresh =>
    have hmem : lookup ∉ (desks.desk (keys lookup)).members :=
      h.not_mem fun _ => by simp [hs, Standing.ofPhase]
    have hleave : (desks.desk (keys lookup)).leave lookup = desks.desk (keys lookup) := by
      cases hd : desks.desk (keys lookup) with
      | kept value => rfl
      | line lookups =>
        have hnot : lookup ∉ lookups := by simpa [hd] using hmem
        rw [Desk.leave, List.erase_of_not_mem hnot]
    rw [hleave]
    exact ⟨(h.served _).update hmem none, fun _ _ => rfl, h.bounded⟩
  | waiting ticket => exact h.served_leave_waiting hphase
  | computing polls =>
    obtain ⟨rest, ticket, tickets, hd, hcell, hn, hmem, hr⟩ := h.exists_line hs
    obtain ⟨hfail, htouched⟩ := served_fail h.bounded hcell hn hr
    have herase : (Desk.line (lookup :: rest) : Desk V).leave lookup = .line rest := by
      simp [Desk.leave]
    rw [hd, herase]
    exact ⟨hfail.update hmem none, htouched⟩

/-- A lookup is dropped. -/
theorem drop (hp : ∀ memo world, place.get (place.set memo world) = memo)
    (h : Refines place keys scene desks) {phase : LookupPhase}
    (hphase : scene.phase? lookup = some phase) :
    Refines place keys (scene.drop place (keys lookup) lookup phase)
      (desks.act keys (.drop lookup)) := by
  have hs : desks.standing lookup = .ofPhase (some phase) := by rw [h.standing, hphase]
  have hended : desks.standing lookup ≠ .ended := by
    rw [hs]
    cases phase <;> exact Standing.noConfusion
  have ho := h.orderly.act (.drop lookup)
  rw [Desks.act, Desk.drop, if_neg hended] at ho ⊢
  obtain ⟨hserved, htouched⟩ := h.served_leave hphase
  exact h.put ho rfl rfl rfl (hp _ _) htouched hserved

/-- All lookups that have not ended are dropped. -/
theorem release (hp : ∀ memo world, place.get (place.set memo world) = memo)
    (h : Refines place keys scene desks) :
    Refines place keys (scene.release place) (desks.act keys .release) := by
  have hcell : ∀ key, (place.get (scene.release place).world).cell key
      = { value? := ((place.get scene.world).cell key).value? } := by
    intro key
    rw [Scene.release, hp, cell_release]
  refine ⟨h.orderly.act .release, fun lookup => ?_, ?_, fun key => ?_, fun key ticket ht => ?_⟩
  · simp only [Desks.act, Scene.release, h.standing]
    cases scene.phase? lookup with
    | none => rfl
    | some phase => cases phase <;> rfl
  · simp only [Desks.act, Scene.release, h.notes]
  · have hserved := h.served key
    rw [hcell, Desks.act]
    generalize (place.get scene.world).cell key = cell at hserved ⊢
    show ((desks.desk key).clear).Served _ _
    generalize desks.desk key = desk at hserved ⊢
    cases hserved with
    | kept value => exact .kept value
    | idle => exact .idle
    | called hn hf hr => exact .idle
  · rw [hcell] at ht
    simp at ht

end Refines

end QueryEngine.Memo
