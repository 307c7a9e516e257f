import QueryEngine.Proofs.Execution.Course
import QueryEngine.Proofs.Execution.Steps

/-!
# Responses grow

From one drain step to the next the response only grows: errors are added at the end, and of the
data nothing changes but slots that held null (`AfterSteps.grows`). Connections do make objects
null that hold something, but only in the step that made these objects; `Grown` says that whatever
is still open after some drain steps lies in a slot that was null or did not exist by then.
-/

namespace QueryEngine

namespace Json

/-- A value with a null for each of its parts. -/
def top : Json → Json
  | .array items => .array (items.map fun _ => .null)
  | .object fields => .object (fields.map fun field => (field.1, .null))
  | value => value

/-- The second value has all that the first one has, and may have something in its nulls. -/
def Fills (value filled : Json) : Prop :=
  ∀ path part, value.at? path = some part →
    part = .null ∨ ∃ other, filled.at? path = some other ∧ other.top = part.top

/-- Every value fills itself. -/
theorem Fills.refl (value : Json) : value.Fills value :=
  fun _ part h => .inr ⟨part, h, rfl⟩

/-- Only null looks like null from the outside. -/
theorem top_eq_null_iff {value : Json} : value.top = .null ↔ value = .null := by
  cases value <;> simp [top]

/-- What fills a value that fills another one fills the other one. -/
theorem Fills.trans {a b c : Json} (hab : a.Fills b) (hbc : b.Fills c) : a.Fills c := by
  intro path part h
  rcases hab path part h with rfl | ⟨other, ho, htop⟩
  · exact .inl rfl
  · rcases hbc path other ho with rfl | ⟨last, hl, htop'⟩
    · exact .inl (top_eq_null_iff.1 htop.symm)
    · exact .inr ⟨last, hl, htop'.trans htop⟩

/-- Putting a value under a key that is there keeps the keys and their order. -/
theorem map_fst_put_of_lookup {key : String} {old : Json} {fields : Fields}
    (h : fields.lookup key = some old) (value : Json) :
    (Entries.put key value fields).map Prod.fst = fields.map Prod.fst := by
  induction fields with
  | nil => cases h
  | cons field rest ih =>
    obtain ⟨k, v⟩ := field
    by_cases hk : k = key
    · simp [Entries.put, hk]
    · have hk' : (key == k) = false := by simpa using fun e => hk e.symm
      rw [List.lookup_cons, hk'] at h
      simp [Entries.put, hk, ih h]

/-- Replacing a part keeps what the value looks like from outside. -/
theorem top_setChild {value old : Json} {s : Segment} (h : value.child? s = some old)
    (new : Json) : (value.setChild s new).top = value.top := by
  cases value <;> cases s <;> simp only [child?, reduceCtorEq] at h
  · simp only [setChild, top, List.map_const', List.length_set]
  · have hkeys := map_fst_put_of_lookup h new
    have hnulls := congrArg (List.map fun key => (key, Json.null)) hkeys
    simpa [setChild, top, Function.comp_def] using hnulls

/-- Filling a slot strictly inside a value does not change what the value looks like from the
outside. -/
theorem top_fill {value : Json} {path : Path} (hne : path ≠ []) (new : Json) :
    (value.fill path new).top = value.top := by
  obtain ⟨s, rest, rfl⟩ := List.exists_cons_of_ne_nil hne
  cases hs : value.child? s with
  | none => rw [fill_cons_of_none hs]
  | some old => rw [fill_cons hs, top_setChild hs]

/-- What looks like a list from outside is one of the same length. -/
theorem top_eq_array {value : Json} {items : List Json} (h : value.top = (Json.array items).top) :
    ∃ others, value = .array others ∧ others.length = items.length := by
  cases value with
  | array others => exact ⟨others, rfl, by simpa using congrArg List.length (array.inj h)⟩
  | null | bool | number | string | object => simp [top] at h

/-- What looks like an object from outside is one with the same keys. -/
theorem top_eq_object {value : Json} {fields : Fields}
    (h : value.top = (Json.object fields).top) :
    ∃ others, value = .object others ∧ others.map Prod.fst = fields.map Prod.fst := by
  cases value with
  | object others =>
    refine ⟨others, rfl, ?_⟩
    have hkeys := congrArg (List.map Prod.fst) (object.inj h)
    simpa [Function.comp_def] using hkeys
  | null | bool | number | string | array => simp [top] at h

/-- Filling a slot that was null, or did not exist, only fills nulls. -/
theorem Fills.fill {value filled : Json} (h : value.Fills filled) {path : Path}
    (hp : ∀ part, value.at? path = some part → part = .null) (new : Json) :
    value.Fills (filled.fill path new) := by
  intro slot part hs
  by_cases hwithin : path <+: slot
  · -- Below a null there is only the null itself.
    obtain ⟨rest, rfl⟩ := hwithin
    rw [at?_append] at hs
    obtain ⟨around, ha, hr⟩ := Option.bind_eq_some_iff.1 hs
    obtain rfl := hp around ha
    cases rest with
    | nil => exact .inl (by simpa using hr.symm)
    | cons s rest => simp [at?_cons] at hr
  · refine (h slot part hs).imp_right ?_
    rintro ⟨other, ho, htop⟩
    by_cases habove : slot <+: path
    · obtain ⟨rest, rfl⟩ := habove
      refine ⟨other.fill rest new, by rw [at?_fill_above, ho]; rfl, ?_⟩
      rw [top_fill _ new, htop]
      rintro rfl
      exact hwithin (by simp)
    · exact ⟨other, by rw [at?_fill_of_apart ⟨hwithin, habove⟩, ho], htop⟩

end Json

namespace Execution

open Moment

variable {W O C T : Type} {setting : Setting W O C T} {tree : SelectionTree (Definition W O C T)}
  {root : O} {world : W}

/-! ## Between two drain steps -/

/-- What a moment adds to a state that came before. -/
structure Grown (before : State W O C T) (m : Moment W O C T) : Prop where
  fills : before.data.Fills m.state.data
  errors : before.errors <+: m.state.errors
  /-- What is open lies in slots that were null or did not exist. -/
  opened : ∀ work ∈ m.works, ∀ part, before.data.at? work.path = some part → part = .null

/-- The work that a piece leaves lies in slots that were null or did not exist. -/
theorem Grown.opened_piece {before : State W O C T} {work left : Work W O C T}
    (hw : ∀ part, before.data.at? work.path = some part → part = .null)
    {world : W} (hl : left ∈ (work.piece setting world).1.works) {part : Json}
    (hp : before.data.at? left.path = some part) : part = .null := by
  obtain ⟨rest, he, -⟩ := Work.path_of_mem_works hl
  rw [he, Json.at?_append] at hp
  obtain ⟨around, ha, hr⟩ := Option.bind_eq_some_iff.1 hp
  obtain rfl := hw around ha
  cases rest with
  | nil => simpa using hr.symm
  | cons s rest => simp [Json.at?_cons] at hr

/-- Whatever is done, the response grows. -/
theorem Grown.effect {before : State W O C T} {m m' : Moment W O C T} (h : Grown before m)
    (he : Effect setting m m') : Grown before m' := by
  cases he with
  | skip hn hd =>
    refine ⟨?_, ?_, fun work hw => h.opened work (mem_works_of_next hn hw)⟩
    · rw [data_next hn]
      exact h.fills
    · rw [errors_next hn]
      exact h.errors
  | @graft work rest hn hd =>
    have hopen := h.opened work (mem_works_next hn)
    refine ⟨?_, ?_, ?_⟩
    · rw [graft_state, State.graft_data, data_next hn]
      exact h.fills.fill hopen _
    · show before.errors <+: rest.state.errors ++ _
      rw [errors_next hn]
      exact h.errors.trans (List.prefix_append ..)
    · intro other ho part hp
      rcases List.mem_append.1 ((works_graft ..).mem_iff.1 ho) with ho | ho
      · exact h.opened other (mem_works_of_next hn ho) part hp
      · exact Grown.opened_piece hopen ho hp
  | drain hn hp hs hd =>
    refine ⟨h.fills, h.errors, ?_⟩
    intro work hw part hpart
    rename_i outcomes after
    have hpaths := map_works_drained (f := Work.path) (fun _ _ => rfl) hn (length_outcomes hd) after
    obtain ⟨other, ho, he⟩ := List.mem_map.1 (hpaths ▸ List.mem_map_of_mem hw)
    exact h.opened other ho part (he ▸ hpart)

/-- Where only tasks are left, what is open are nulls. -/
theorem Sound.grown {node : Node (Definition W O C T)} {past : List (Moment W O C T)}
    {m : Moment W O C T} (h : Sound setting node past m) (hn : m.next? = none) :
    Grown m.state m where
  fills := .refl _
  errors := List.prefix_refl _
  opened work hw part hpart := by
    rw [works_of_next?_eq_none hn] at hw
    obtain ⟨pending, hp, rfl⟩ := List.mem_map.1 hw
    have hmark : (Work.task pending).mark ∈ m.marks := by
      refine List.mem_append_right _ (List.mem_map_of_mem ?_)
      rw [works_of_next?_eq_none hn]
      exact List.mem_map_of_mem hp
    have hnull := h.marked.at?_eq hmark (Option.isSome_iff_exists.2 ⟨part, hpart⟩)
    exact Option.some.inj (hpart.symm.trans hnull)

/-! ## Over drain steps -/

/-- Moves from a moment that was reached. -/
theorem Reaches.trans {start m m' : Moment W O C T} {past past' : List (Moment W O C T)}
    (h : Reaches setting start past m) (h' : Reaches setting m past' m') :
    Reaches setting start (past' ++ past) m' := by
  induction h' with
  | start => exact h
  | move _ hm ih => exact ih.move hm

/-- Until the next drain step, and over it, the response grows. -/
theorem Reaches.grown (hk : tree.root.KeysDistinct) {m m' : Moment W O C T}
    {past past' : List (Moment W O C T)} (h : Reaches setting (.start root tree world) past m)
    (hn : m.next? = none) (h' : Reaches setting m past' m') : Grown m.state m' := by
  induction h' with
  | start => exact (h.sound hk).grown hn
  | move hr hm ih => exact ih.effect (((h.trans hr).sound hk).effect hk hm)

/-- A drain step, with what is resolved after it, is a number of moves. -/
theorem reaches_step (hk : tree.root.KeysDistinct) {limit : Option Nat} {start : Moment W O C T}
    (hs : ∀ past m, Reaches (setting.limited limit) start past m →
      ∃ all, Sound (setting.limited limit) tree.root all m)
    {past : List (Moment W O C T)} {steps fuel : Nat} {state : State W O C T}
    {outcomes : List (Outcome O C T)} {after : W}
    (h : Reaches (setting.limited limit) start past ⟨steps, state, []⟩)
    (hf : state.frontier = []) (hp : state.pending ≠ [])
    (hc : setting.host.cancelled state.world = false) (hl : ∀ l ∈ limit, steps < l)
    (hd : drain setting fuel state = some (.completed outcomes, after)) :
    let next := resolveQueued setting tree.root.height
      (applyAll setting state.pending outcomes { state with world := after, pending := [] })
    (∃ past', Reaches (setting.limited limit) start past' ⟨steps + 1, next, []⟩)
      ∧ next.frontier = [] := by
  have hn : (⟨steps, state, []⟩ : Moment W O C T).next? = none := by simp [Moment.next?, hf]
  have hstop : stop? (setting.limited limit) steps state.world = none :=
    stop?_eq_none_iff.2 ⟨hc, hl⟩
  obtain ⟨past', hr⟩ := reaches_applyAll _ _ (h.move (.drain hn hp hstop hd))
  obtain ⟨past'', hr', hf'⟩ := reaches_resolveQueued hk hs tree.root.height hr (reach_height hs hr)
  simp only [Setting.limited, resolveQueued_draining, applyAll_draining] at hr' hf'
  exact ⟨⟨past'', hr'⟩, hf'⟩

/-- The state after drain steps is one that an execution passes whose limit allows as many. -/
theorem AfterSteps.reaches (hk : tree.root.KeysDistinct) (limit : Option Nat) {steps : Nat}
    {state : State W O C T}
    (h : AfterSteps setting tree.root.height (.initial root tree world) steps state)
    (hl : ∀ l ∈ limit, steps ≤ l) :
    (∃ past, Reaches (setting.limited limit) (.start root tree world) past ⟨steps, state, []⟩)
      ∧ state.frontier = [] := by
  have hsound : ∀ past m, Reaches (setting.limited limit) (.start root tree world) past m →
      ∃ all, Sound (setting.limited limit) tree.root all m := fun _ _ hm => ⟨_, hm.sound hk⟩
  induction h with
  | start =>
    have hstart : Reaches (setting.limited limit) (.start root tree world) []
        ⟨0, .initial root tree world, []⟩ := .start
    obtain ⟨past, hr, hf⟩ :=
      reaches_resolveQueued hk hsound tree.root.height hstart (reach_height hsound hstart)
    rw [Setting.limited, resolveQueued_draining] at hr hf
    exact ⟨⟨past, hr⟩, hf⟩
  | step _ hp hc hd ih =>
    obtain ⟨⟨past, hr⟩, hf⟩ := ih fun l hm => Nat.le_of_succ_le (hl l hm)
    exact reaches_step hk hsound hr hf hp hc hl hd

/-- One drain step adds errors at the end and fills nulls. -/
theorem AfterSteps.grows_step (hk : tree.root.KeysDistinct) {steps fuel : Nat}
    {state : State W O C T} {outcomes : List (Outcome O C T)} {after : W}
    (h : AfterSteps setting tree.root.height (.initial root tree world) steps state)
    (hp : state.pending ≠ []) (hc : setting.host.cancelled state.world = false)
    (hd : drain setting fuel state = some (.completed outcomes, after)) :
    let next := resolveQueued setting tree.root.height
      (applyAll setting state.pending outcomes { state with world := after, pending := [] })
    state.data.Fills next.data ∧ state.errors <+: next.errors := by
  obtain ⟨⟨past, hr⟩, hf⟩ := h.reaches hk none nofun
  have hn : (⟨steps, state, []⟩ : Moment W O C T).next? = none := by simp [Moment.next?, hf]
  obtain ⟨⟨past', hr'⟩, -⟩ :=
    reaches_step hk (fun _ _ hm => ⟨_, (hr.trans hm).sound hk⟩) .start hf hp hc nofun hd
  have hgrown := hr.grown hk hn hr'
  exact ⟨hgrown.fills, hgrown.errors⟩

/-- Later drain steps add errors at the end and fill nulls. -/
theorem AfterSteps.grows (hk : tree.root.KeysDistinct) {steps more : Nat}
    {state later : State W O C T}
    (h : AfterSteps setting tree.root.height (.initial root tree world) steps state)
    (h' : AfterSteps setting tree.root.height (.initial root tree world) more later)
    (hle : steps ≤ more) : state.data.Fills later.data ∧ state.errors <+: later.errors := by
  induction h' with
  | start =>
    obtain rfl : steps = 0 := by omega
    obtain rfl := h.unique .start
    exact ⟨.refl _, List.prefix_refl _⟩
  | step hs hp hc hd ih =>
    rcases Nat.lt_or_eq_of_le hle with hlt | rfl
    · obtain ⟨hfills, herrors⟩ := ih (by omega)
      obtain ⟨hnext, hmore⟩ := hs.grows_step hk hp hc hd
      exact ⟨hfills.trans hnext, herrors.trans hmore⟩
    · obtain rfl := h.unique (.step hs hp hc hd)
      exact ⟨.refl _, List.prefix_refl _⟩

end Execution

end QueryEngine
