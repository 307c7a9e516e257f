import Mathlib.Tactic.Common
import QueryEngine.Field.Binding

/-!
# A type is bound once

A cell for a type is read and bound by calls, any number of them and in any order (`BindingCall`);
between them other parts of the program change the world that a thunk sees. `settled?` says which
type a history of calls settles the cell on, without running the calls: the type that it was made
with, the first one that is bound, or what the thunk yields in the world of the first call that
needs a type. A call moves a cell along its history and changes nothing about where that leads
(`ahead_run`), so where some calls and others after them lead is where the others lead from the cell
that the first ones leave (`settled?_append`). `writtenOnce` reads off what any call answers after
any history.
-/

namespace QueryEngine

variable {W : Type}

/-- A call on a cell for a type, or a change of the world by something else. -/
inductive BindingCall (W : Type) where
  | get
  | isResolved
  | bind (type : TypeRef)
  | elsewhere (change : W → W)

/-- What a call answers. -/
inductive BindingAnswer where
  | held (type? : Option TypeRef)
  | resolved (isResolved : Bool)
  | bound (result : Except ConfigurationError TypeRef)
  | nothing

/-- The type that a reading yields, or that a binding answers if it succeeds. -/
def BindingAnswer.type? : BindingAnswer → Option TypeRef
  | held type? => type?
  | bound (.ok type) => some type
  | bound (.error _) | resolved _ | nothing => none

namespace BindingCall

/-- The answer of the call, the cell after it and the world after it. -/
def run (call : BindingCall W) (cell : TypeBinding W) (world : W) :
    BindingAnswer × TypeBinding W × W :=
  match call with
  | get =>
    let (type?, cell, world) := cell.get world
    (.held type?, cell, world)
  | isResolved => (.resolved cell.isResolved, cell, world)
  | bind type =>
    let (result, cell, world) := cell.bind type world
    (.bound result, cell, world)
  | elsewhere change => (.nothing, cell, change world)

/-- The answers of calls, from the first to the last, with the cell and the world after them. -/
def runAll : List (BindingCall W) → TypeBinding W → W →
    List BindingAnswer × TypeBinding W × W
  | [], cell, world => ([], cell, world)
  | call :: rest, cell, world =>
    let (answer, cell, world) := call.run cell world
    let (answers, cell, world) := runAll rest cell world
    (answer :: answers, cell, world)

/-- The call needs a type, so that it runs a thunk that has not run. -/
def forces : BindingCall W → Bool
  | get | bind _ => true
  | isResolved | elsewhere _ => false

/-- The type that the call binds. -/
def bind? : BindingCall W → Option TypeRef
  | bind type => some type
  | get | isResolved | elsewhere _ => none

/-- The world as the calls leave it if none of them runs a thunk. -/
def changed (calls : List (BindingCall W)) (world : W) : W :=
  calls.foldl (fun world call =>
    match call with
    | elsewhere change => change world
    | get | isResolved | bind _ => world) world

end BindingCall

open BindingCall

namespace TypeBinding

/-- The type that calls settle a cell on, if they settle it. -/
def settled? (cell : TypeBinding W) (calls : List (BindingCall W)) (world : W) : Option TypeRef :=
  match cell with
  | .bound type => some type
  | .unbound => calls.findSome? bind?
  | .deferred thunk =>
    if calls.any forces then some (thunk (changed (calls.takeWhile (!·.forces)) world)).1 else none

/-- The world after calls on a cell: a thunk runs in it at the first call that needs a type. -/
def worldAfter (cell : TypeBinding W) (calls : List (BindingCall W)) (world : W) : W :=
  match cell with
  | .unbound | .bound _ => changed calls world
  | .deferred thunk =>
    if calls.any forces then
      changed (calls.dropWhile (!·.forces)) (thunk (changed (calls.takeWhile (!·.forces)) world)).2
    else changed calls world

/-! ## One call -/

/-- Binding a cell that a reading finds a type in compares that type, and leaves the cell as the
reading does. -/
theorem bind_of_get {cell : TypeBinding W} {world : W} {held : TypeRef}
    (h : (cell.get world).1 = some held) (type : TypeRef) : cell.bind type world
      = (if held = type then .ok held else .error (.typeRebound held type),
          (cell.get world).2) := by
  rcases hget : cell.get world with ⟨_, after, world'⟩
  rw [hget] at h
  cases h
  by_cases hsame : held = type <;> simp [TypeBinding.bind, hget, hsame]

/-- A call changes nothing about the type that the cell is settled on, nor about the world that the
calls end in. -/
theorem ahead_run (cell : TypeBinding W) (call : BindingCall W) (rest : List (BindingCall W))
    (world : W) :
    let reached := (call.run cell world).2
    cell.settled? (call :: rest) world = reached.1.settled? rest reached.2
      ∧ cell.worldAfter (call :: rest) world = reached.1.worldAfter rest reached.2 := by
  cases call with
  | get | isResolved | elsewhere _ => cases cell <;> exact ⟨rfl, rfl⟩
  | bind type =>
    cases cell with
    | unbound => exact ⟨rfl, rfl⟩
    | bound held | deferred thunk =>
      rw [run, bind_of_get rfl]
      exact ⟨rfl, rfl⟩

/-- A cell that is settled before any call is bound. -/
theorem eq_bound_of_settled?_nil {cell : TypeBinding W} {world : W} {held : TypeRef}
    (h : cell.settled? [] world = some held) : cell = .bound held := by
  cases cell with
  | unbound | deferred thunk => cases h
  | bound own => cases h; rfl

/-- A cell is resolved if it is settled before any call. -/
theorem isResolved_eq (cell : TypeBinding W) (world : W) :
    cell.isResolved = (cell.settled? [] world).isSome := by
  cases cell <;> rfl

/-- A reading yields the type that the reading itself settles the cell on. -/
theorem get_eq (cell : TypeBinding W) (world : W) :
    (cell.get world).1 = cell.settled? [.get] world := by
  cases cell <;> rfl

/-- A binding settles the cell, and succeeds if it settles it on the type that it asks for. -/
theorem bind_eq (cell : TypeBinding W) (type : TypeRef) (world : W) :
    ∃ held, cell.settled? [.bind type] world = some held
      ∧ (cell.bind type world).1
        = (if held = type then .ok held else .error (.typeRebound held type))
      ∧ (cell.bind type world).2.1 = .bound held := by
  cases cell with
  | unbound => exact ⟨type, rfl, (if_pos rfl).symm, rfl⟩
  | bound held =>
    refine ⟨held, rfl, ?_⟩
    rw [bind_of_get rfl]
    exact ⟨rfl, rfl⟩
  | deferred thunk =>
    refine ⟨(thunk world).1, rfl, ?_⟩
    rw [bind_of_get rfl]
    exact ⟨rfl, rfl⟩

/-- A call that answers a type leaves the cell bound to it. -/
theorem run_eq_bound {cell : TypeBinding W} {call : BindingCall W} {world : W} {type : TypeRef}
    (h : (call.run cell world).1.type? = some type) : (call.run cell world).2.1 = .bound type := by
  cases call with
  | isResolved | elsewhere _ => cases h
  | get =>
    cases cell with
    | unbound => cases h
    | bound held | deferred thunk => cases h; rfl
  | bind asked =>
    obtain ⟨held, -, hanswer, hcell⟩ := bind_eq cell asked world
    simp only [run, hanswer] at h
    rw [run, hcell]
    split at h <;> cases h
    rfl

/-! ## Any history of calls -/

/-- Where calls lead is where the rest of them leads from what the first of them leave. -/
theorem settled?_append (cell : TypeBinding W) (calls more : List (BindingCall W)) (world : W) :
    cell.settled? (calls ++ more) world
      = (runAll calls cell world).2.1.settled? more (runAll calls cell world).2.2 := by
  induction calls generalizing cell world with
  | nil => rfl
  | cons call rest ih => exact (ahead_run ..).1.trans (ih ..)

/-- The cell that settling calls leave is bound. -/
theorem runAll_eq_bound {cell : TypeBinding W} {calls : List (BindingCall W)} {world : W}
    {held : TypeRef} (h : cell.settled? calls world = some held) :
    (runAll calls cell world).2.1 = .bound held := by
  rw [← List.append_nil calls, settled?_append] at h
  exact eq_bound_of_settled?_nil h

/-- Every type that is answered is the one that the cell is settled on. -/
theorem settled?_of_mem_runAll {cell : TypeBinding W} {calls : List (BindingCall W)} {world : W}
    {answer : BindingAnswer} (hmem : answer ∈ (runAll calls cell world).1) {type : TypeRef}
    (h : answer.type? = some type) : cell.settled? calls world = some type := by
  induction calls generalizing cell world with
  | nil => cases hmem
  | cons call rest ih =>
    rw [(ahead_run ..).1]
    rcases List.mem_cons.1 hmem with rfl | hrest
    · rw [run_eq_bound h]
      rfl
    · exact ih hrest

/-- A thunk runs once, at the first call that needs a type, in the world that the calls before it
leave. -/
theorem runAll_world (cell : TypeBinding W) (calls : List (BindingCall W)) (world : W) :
    (runAll calls cell world).2.2 = cell.worldAfter calls world := by
  induction calls generalizing cell world with
  | nil => cases cell <;> rfl
  | cons call rest ih => exact (ih ..).trans (ahead_run ..).2.symm

/-- What no change by something else touches is as before. -/
theorem count_changed {runs : W → ℕ} {calls : List (BindingCall W)}
    (h : ∀ change, .elsewhere change ∈ calls → ∀ world, runs (change world) = runs world)
    (world : W) : runs (changed calls world) = runs world := by
  induction calls generalizing world with
  | nil => rfl
  | cons call rest ih =>
    have hrest := ih fun change hc => h change (List.mem_cons_of_mem call hc)
    cases call with
    | get | isResolved | bind _ => exact hrest world
    | elsewhere change =>
      exact (hrest (change world)).trans (h change (List.mem_cons_self ..) world)

/-- A thunk that counts its runs counts one if a call needs a type, and none otherwise. -/
theorem count_worldAfter {thunk : W → TypeRef × W} {runs : W → ℕ} {calls : List (BindingCall W)}
    (hthunk : ∀ world, runs (thunk world).2 = runs world + 1)
    (h : ∀ change, .elsewhere change ∈ calls → ∀ world, runs (change world) = runs world)
    (world : W) : runs ((TypeBinding.deferred thunk).worldAfter calls world)
      = runs world + if calls.any forces then 1 else 0 := by
  have hpart : ∀ part ⊆ calls, ∀ world, runs (changed part world) = runs world :=
    fun part hsub => count_changed fun change hc => h change (hsub hc)
  rw [worldAfter]
  split
  · rw [hpart _ (List.dropWhile_suffix _).subset, hthunk,
      hpart _ (List.takeWhile_prefix _).subset]
  · exact hpart calls (List.Subset.refl calls) world

/-- What calls on a cell for a type guarantee, whatever they are and in whatever order they come.
Every type that a reading yields and that a binding answers is the one that the calls settle the
cell on: the type that the cell was made with, what its thunk yields, or the first one that is
bound. From then on the cell is bound to that type and stays so. A thunk runs in the world of the
first call that needs a type, and at no other time, so one that counts its runs counts at most one.
After all those calls a cell is resolved if they settled it, a reading yields what it is settled on
with that reading, and a binding succeeds just if the cell is settled on the type it asks for; one
that fails reports both types and leaves the one in place. -/
theorem writtenOnce (cell : TypeBinding W) (calls : List (BindingCall W)) (world : W) :
    let reached := runAll calls cell world
    (∀ answer ∈ reached.1, ∀ type, answer.type? = some type →
        cell.settled? calls world = some type)
      ∧ (∀ held, cell.settled? calls world = some held → reached.2.1 = .bound held
          ∧ ∀ more, cell.settled? (calls ++ more) world = some held)
      ∧ reached.2.2 = cell.worldAfter calls world
      ∧ (∀ (thunk : W → TypeRef × W) (runs : W → ℕ), cell = .deferred thunk →
          (∀ world, runs (thunk world).2 = runs world + 1) →
          (∀ change, .elsewhere change ∈ calls → ∀ world, runs (change world) = runs world) →
            runs reached.2.2 = runs world + if calls.any forces then 1 else 0)
      ∧ reached.2.1.isResolved = (cell.settled? calls world).isSome
      ∧ (reached.2.1.get reached.2.2).1 = cell.settled? (calls ++ [.get]) world
      ∧ ∀ type, ∃ held, cell.settled? (calls ++ [.bind type]) world = some held
          ∧ (reached.2.1.bind type reached.2.2).1
            = (if held = type then .ok held else .error (.typeRebound held type))
          ∧ (reached.2.1.bind type reached.2.2).2.1 = .bound held := by
  intro reached
  refine ⟨fun answer hmem type => settled?_of_mem_runAll hmem, fun held hheld => ?_,
    runAll_world cell calls world, ?_, ?_, ?_, fun type => ?_⟩
  · refine ⟨runAll_eq_bound hheld, fun more => ?_⟩
    rw [settled?_append, runAll_eq_bound hheld]
    rfl
  · rintro thunk runs rfl hthunk helse
    rw [show reached.2.2 = _ from runAll_world _ calls world]
    exact count_worldAfter hthunk helse world
  · rw [isResolved_eq _ reached.2.2, ← settled?_append, List.append_nil]
  · rw [get_eq, ← settled?_append]
  · rw [settled?_append]
    exact bind_eq reached.2.1 type reached.2.2

/-- A reading of an unbound cell does not keep it from being bound. -/
example : (runAll [.get, .bind (.named "String"), .bind (.named "Int"), .get]
      (.unbound : TypeBinding Unit) ()).1
    = [.held none, .bound (.ok (.named "String")),
      .bound (.error (.typeRebound (.named "String") (.named "Int"))),
      .held (some (.named "String"))] :=
  rfl

end TypeBinding

end QueryEngine
