import QueryEngine.Proofs.Execution.Growth
import QueryEngine.Proofs.Execution.Refinement

/-!
# Stopped executions

An execution that is stopped answers with what it has reached: with a limit of drain steps the
response is a beginning of the one with a higher limit or without one, and both are the same unless
more drain steps are needed than the limit allows; a cancelled execution answers with the state
after the last drain step that was completed (`execute_limited`). Resolvers, tasks and connections
may change the world as they like.
-/

namespace QueryEngine

namespace Response

/-- The errors of fields. -/
def fieldErrors (response : Response) : List ResponseError :=
  response.errors.filter (·.path.isSome)

/-- The errors of the whole operation. -/
def pathless (response : Response) : List ResponseError :=
  response.errors.filter (·.path.isNone)

/-- The second response has all the errors of fields and all the data of the first one. -/
structure Begins (short long : Response) : Prop where
  errors : short.fieldErrors <+: long.fieldErrors
  data : ∃ value filled, short.data = some value ∧ long.data = some filled ∧ value.Fills filled

end Response

namespace Execution

variable {W O C T : Type} {setting : Setting W O C T} {tree : SelectionTree (Definition W O C T)}
  {root : O} {world : W}

/-- Stopping changes neither the data nor the errors of fields. -/
theorem Halts.eq {steps : Nat} {state final : State W O C T} {error : Option ExecutionError}
    (h : Halts setting steps state error final) :
    final.data = state.data ∧ final.errors = state.errors := by
  cases h <;> exact ⟨rfl, rfl⟩

section
variable {error : Option ExecutionError} {state : State W O C T}
  (h : ∀ e ∈ state.errors, e.path.isSome)
include h

/-- The errors of fields in a response are those of the state. -/
theorem fieldErrors_response : (response error state).fieldErrors = state.errors := by
  have hfield : state.errors.filter (·.path.isSome) = state.errors := List.filter_eq_self.2 h
  cases error with
  | none => simp [Response.fieldErrors, response, hfield]
  | some error =>
    simp [Response.fieldErrors, response, hfield, ResponseError.ofExecutionError]

/-- At most one error of a response has no path: the one that ended the execution. -/
theorem pathless_response : (response error state).pathless
    = (error.map ResponseError.ofExecutionError).toList := by
  have hfield : state.errors.filter (·.path.isNone) = [] := by
    rw [List.filter_eq_nil_iff]
    intro e he
    simpa [Option.ne_none_iff_isSome] using h e he
  cases error with
  | none => simp [Response.pathless, response, hfield]
  | some error =>
    simp [Response.pathless, response, hfield, ResponseError.ofExecutionError]

end

/-- Errors that end an execution in different ways are different. -/
theorem ofExecutionError_inj {a b : ExecutionError}
    (h : ResponseError.ofExecutionError a = .ofExecutionError b) : a = b := by
  cases a <;> cases b
  · rfl
  · simp [ResponseError.ofExecutionError, ExecutionError.extensions] at h
  · simp [ResponseError.ofExecutionError, ExecutionError.extensions] at h
  · simp only [ResponseError.ofExecutionError, ExecutionError.extensions, Json.ofNat,
      ResponseError.mk.injEq, List.cons.injEq, Prod.mk.injEq, Json.number.injEq,
      Number.int.injEq] at h
    exact congrArg ExecutionError.drainLimitExceeded (by omega)

/-- An execution that ends has reached the state after some drain steps, not more than its limit
allows, and answers with the data and the errors of that state. -/
theorem execute_halts (hk : tree.root.KeysDistinct) {limit : Option Nat} {fuel : Nat}
    {answer : Response × W}
    (h : execute (setting.limited limit) tree root fuel world = some answer) :
    ∃ steps state error final,
      AfterSteps setting tree.root.height (.initial root tree world) steps state
        ∧ (∀ l ∈ limit, steps ≤ l) ∧ Halts (setting.limited limit) steps state error final
        ∧ answer = (response error final, final.world)
        ∧ answer.1.data = some state.data ∧ answer.1.fieldErrors = state.errors
        ∧ answer.1.pathless = (error.map ResponseError.ofExecutionError).toList := by
  obtain ⟨⟨error, final⟩, hr, rfl⟩ := Option.map_eq_some_iff.1 h
  obtain ⟨steps, state, hs, hl, hh⟩ := run_halts hr .start fun _ _ => Nat.zero_le _
  obtain ⟨hdata, herrors⟩ := hh.eq
  obtain ⟨⟨past, hreach⟩, -⟩ := hs.reaches hk none nofun
  have hpaths : ∀ e ∈ final.errors, e.path.isSome := by
    rw [herrors]
    exact fun e he => ((hreach.sound hk).labelled e he).1
  refine ⟨steps, state, error, final, hs, hl, hh, rfl, ?_, ?_, pathless_response hpaths⟩
  · simp [response, hdata]
  · rw [fieldErrors_response hpaths, herrors]

section
variable {limit : Nat} {steps : Nat} {state final : State W O C T} {error : Option ExecutionError}

/-- An execution ends at its limit if and only if it needs more drain steps. -/
theorem Halts.exceeds_iff {levels : Nat} {start : State W O C T}
    (h : Halts (setting.limited (some limit)) steps state error final)
    (hs : AfterSteps setting levels start steps state) (hl : steps ≤ limit) :
    error = some (.drainLimitExceeded limit) ↔ NeedsMore setting levels start limit := by
  constructor
  · rintro rfl
    cases h with
    | stopped hp h =>
      by_cases hc : setting.host.cancelled state.world
      · rw [stop?_of_cancelled hc] at h
        cases h
      · have hc : setting.host.cancelled state.world = false := by simpa using hc
        have hge : ¬ steps < limit := by
          intro hlt
          rw [stop?_eq_none_iff.2 ⟨hc, by simpa using hlt⟩] at h
          cases h
        obtain rfl : steps = limit := by omega
        exact ⟨state, hs, hp, hc⟩
  · rintro ⟨other, ho, hp, hc⟩
    have hle : limit ≤ steps := h.last hs ho (by simp)
    obtain rfl : steps = limit := by omega
    obtain rfl := hs.unique ho
    have hstop : stop? (setting.limited (some steps)) steps state.world
        = some (.drainLimitExceeded steps) := stop?_at_limit hc hl
    cases h with
    | finished h => exact absurd h hp
    | stopped hp h => exact h.symm.trans hstop
    | cancelled hp hs h => simp [hstop] at hs

/-- Unless more drain steps are needed a higher limit, or none, ends an execution after the same
drain steps and in the same way. -/
theorem Halts.eq_of_not_needsMore {levels : Nat} {start : State W O C T} {other : Option Nat}
    {more : Nat} {later final' : State W O C T} {error' : Option ExecutionError}
    (h : Halts (setting.limited (some limit)) steps state error final)
    (h' : Halts (setting.limited other) more later error' final')
    (hs : AfterSteps setting levels start steps state)
    (hs' : AfterSteps setting levels start more later) (hl : steps ≤ limit)
    (hle : ∀ l ∈ other, limit ≤ l) (hneeds : ¬ NeedsMore setting levels start limit) :
    error = error' ∧ final = final' := by
  have hmore : more ≤ limit := Nat.le_of_not_lt fun hlt => hneeds (hs'.needsMore hlt)
  have hsteps : steps ≤ more := h'.last hs' hs fun l hm => Nat.le_trans hl (hle l hm)
  obtain rfl : steps = more :=
    Nat.le_antisymm hsteps (h.last hs hs' fun l hm => by cases hm; exact hmore)
  obtain rfl := hs.unique hs'
  refine (h.limited ?_).unique h'
  intro hp
  by_cases hc : setting.host.cancelled state.world
  · rw [stop?_of_cancelled hc, stop?_of_cancelled hc]
  · -- Neither limit is reached, as more steps would be needed.
    have hc : setting.host.cancelled state.world = false := by simpa using hc
    have hne : steps ≠ limit := by
      rintro rfl
      exact hneeds ⟨state, hs, hp, hc⟩
    rw [stop?_eq_none_iff.2 ⟨hc, fun l hm => by cases hm; omega⟩,
      stop?_eq_none_iff.2 ⟨hc, fun l hm => by have := hle l hm; omega⟩]

end

/-- What stops an execution as cancelled is that it is cancelled. -/
theorem cancelled_of_stop? {limit : Option Nat} {steps : Nat} {world : W}
    (h : stop? (setting.limited limit) steps world = some .cancelled) :
    setting.host.cancelled world = true := by
  by_contra hc
  have hc : setting.host.cancelled world = false := by simpa using hc
  cases limit with
  | none =>
    rw [stop?_eq_none_iff.2 ⟨hc, by simp⟩] at h
    cases h
  | some l =>
    by_cases hlt : steps < l
    · rw [stop?_eq_none_iff.2 ⟨hc, by simpa using hlt⟩] at h
      cases h
    · rw [stop?_at_limit hc (by omega)] at h
      cases h

/-- A limit of drain steps cuts an execution off: with a limit an execution ends whenever it does
with a higher one or none, it ends at the limit if and only if it needs more drain steps, its
response is a beginning of the other one, and it is the other one unless more steps are needed. A
cancelled execution answers with the state after the last drain step that was completed: of the
batch that is cancelled no result is used. -/
theorem execute_limited (hk : tree.root.KeysDistinct) {limit : Nat} {other : Option Nat}
    (hle : ∀ l ∈ other, limit ≤ l) (root : O) (world : W) :
    (∀ fuel, (execute (setting.limited other) tree root fuel world).isSome →
        (execute (setting.limited (some limit)) tree root fuel world).isSome)
      ∧ (∀ fuel short, execute (setting.limited (some limit)) tree root fuel world = some short →
        (short.1.pathless = [.ofExecutionError (.drainLimitExceeded limit)]
          ↔ NeedsMore setting tree.root.height (.initial root tree world) limit))
      ∧ (∀ fuel fuel' short long,
        execute (setting.limited (some limit)) tree root fuel world = some short →
        execute (setting.limited other) tree root fuel' world = some long →
          short.1.Begins long.1
            ∧ (¬ NeedsMore setting tree.root.height (.initial root tree world) limit →
              short = long))
      ∧ ∀ bound fuel answer,
        execute (setting.limited bound) tree root fuel world = some answer →
        answer.1.pathless = [.ofExecutionError .cancelled] →
          ∃ steps state, AfterSteps setting tree.root.height (.initial root tree world) steps state
            ∧ answer.1.data = some state.data ∧ answer.1.fieldErrors = state.errors
            ∧ state.pending ≠ []
            ∧ (setting.host.cancelled state.world = true
              ∨ ∃ fuel after, drain setting fuel state = some (.cancelled, after)) := by
  refine ⟨?_, ?_, ?_, ?_⟩
  · intro fuel hs
    rw [execute, Option.isSome_map] at hs ⊢
    exact isSome_run_limited hle hs
  · intro fuel short h
    obtain ⟨steps, state, error, final, hs, hl, hh, -, -, -, hpathless⟩ := execute_halts hk h
    rw [hpathless, ← hh.exceeds_iff hs (hl limit rfl)]
    cases error with
    | none => simp
    | some error =>
      simp only [Option.map_some, Option.toList_some, List.cons.injEq, and_true,
        Option.some.injEq]
      exact ⟨ofExecutionError_inj, fun h => h ▸ rfl⟩
  · intro fuel fuel' short long h h'
    obtain ⟨steps, state, error, final, hs, hl, hh, he, hd, herr, -⟩ := execute_halts hk h
    obtain ⟨more, later, error', final', hs', hl', hh', he', hd', herr', -⟩ := execute_halts hk h'
    have hlimit : steps ≤ limit := hl limit rfl
    have hsteps : steps ≤ more := hh'.last hs' hs fun l hm => Nat.le_trans hlimit (hle l hm)
    obtain ⟨hfills, herrors⟩ := hs.grows hk hs' hsteps
    refine ⟨⟨by rwa [herr, herr'], _, _, hd, hd', hfills⟩, ?_⟩
    intro hneeds
    obtain ⟨rfl, rfl⟩ := hh.eq_of_not_needsMore hh' hs hs' hlimit hle hneeds
    rw [he, he']
  · intro bound fuel answer h hcancelled
    obtain ⟨steps, state, error, final, hs, -, hh, -, hd, herr, hpathless⟩ := execute_halts hk h
    refine ⟨steps, state, hs, hd, herr, ?_⟩
    rw [hpathless] at hcancelled
    obtain rfl : error = some .cancelled := by
      cases error with
      | none => cases hcancelled
      | some error => exact congrArg some (ofExecutionError_inj (List.cons.inj hcancelled).1)
    cases hh with
    | stopped hp h => exact ⟨hp, .inl (cancelled_of_stop? h)⟩
    | cancelled hp hs h => exact ⟨hp, .inr ⟨_, _, h⟩⟩

/-- A host of tasks that are ready at once, some with another task. -/
def chainSetting : Setting Unit Unit Unit Bool :=
  bareSetting fun task => .ready (.ok (if task then .lazy false else .value (.string "done")))

/-- With one drain step of two the field is still null. -/
theorem execute_limited_slowTree :
    slowTree.root.KeysDistinct ∧ (∀ l ∈ (none : Option Nat), 1 ≤ l)
      ∧ ∃ short long,
        execute (chainSetting.limited (some 1)) slowTree () 3 () = some (short, ())
          ∧ execute (chainSetting.limited none) slowTree () 3 () = some (long, ())
          ∧ short.data = some (.object [("name", .null)])
          ∧ long.data = some (.object [("name", .string "done")])
          ∧ short.pathless = [.ofExecutionError (.drainLimitExceeded 1)]
          ∧ NeedsMore chainSetting slowTree.root.height (.initial () slowTree ()) 1
          ∧ short.Begins long := by
  have hle : ∀ l ∈ (none : Option Nat), 1 ≤ l := nofun
  obtain ⟨-, hexceeds, hcut, -⟩ :=
    @execute_limited _ _ _ _ chainSetting slowTree slowTree_keysDistinct 1 none hle () ()
  refine ⟨slowTree_keysDistinct, hle, _, _, rfl, rfl, rfl, rfl, rfl, ?_, ?_⟩
  · exact (hexceeds 3 _ rfl).1 rfl
  · exact (hcut 3 3 _ _ rfl rfl).1

end Execution

end QueryEngine
