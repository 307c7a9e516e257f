import QueryEngine.Proofs.Execution.Termination

/-!
# The engine refines the interpreter

Without side effects, without cancellation or limit and with tasks that become ready, the engine
ends if and only if the interpreter has an answer, with the data of that answer and, unless an
object is null because a field failed it, with the same errors in some order
(`execute_refines_interpret`).
-/

namespace QueryEngine.Execution

open Moment

variable {W O C T : Type}

/-- The response has the data of the answer, and the same errors in some order unless an object in
it is null because a field failed it. -/
def Matches (response : Response) (a : Answer) : Prop :=
  response.data = some a.value ∧ (a.nulled = false → response.errors.Perm a.errors)

section
variable {setting : Setting W O C T} {tree : SelectionTree (Definition W O C T)} {root : O}
  {world : W} (h : SideEffectFree setting tree.root world) (hk : tree.root.KeysDistinct)
  (hc : setting.host.cancelled world = false)
include h hk hc

omit h hk hc in
/-- At the start the whole tree is open: settling it is answering the root object. -/
theorem outlook_start {depth : Nat} {a : Answer}
    (ha : interpret setting world tree root depth = some a) :
    Outlook setting world (.start root tree world) a.value a.errors a.nulled := by
  have hset : Settles (Answered setting world) (.object [])
      [Work.object ⟨[], .object (.host root), tree.root.owner, tree.root⟩] a.value
      (a.errors ++ []) (a.nulled || false) := by
    refine .fill rfl ⟨depth, ha⟩ ?_
    simpa [Work.path] using Settles.nil
  have herrors : (start root tree world).state.errors ++ (a.errors ++ []) = a.errors := by
    simp [start, State.initial]
  refine ⟨_, _, hset, fun hn => ⟨by simp [hn], ?_⟩, ?_⟩
  · rw [herrors]
  · rw [herrors]

/-- Every moment of an execution has the outlook of the start. -/
theorem Reaches.outlook {final : Json} {errors : List ResponseError} {nulled : Bool}
    (ho : Outlook setting world (.start root tree world) final errors nulled)
    {past : List (Moment W O C T)} {m : Moment W O C T}
    (hr : Reaches setting (.start root tree world) past m) :
    Outlook setting world m final errors nulled := by
  induction hr with
  | start => exact ho
  | move hr hm ih => exact ih.move h hc hk (hr.sound hk) (hr.quiet hk h hc) hm

/-- If everything open at some moment has an answer, so has the root object. -/
theorem Reaches.answerable {past : List (Moment W O C T)} {m : Moment W O C T}
    (hr : Reaches setting (.start root tree world) past m)
    (ha : Answerable setting world m) : Answerable setting world (.start root tree world) := by
  induction hr with
  | start => exact ha
  | move hr hm ih =>
    exact ih (Answerable.of_move h hc hk (hr.sound hk) (hr.quiet hk h hc) hm ha)

/-- The response of an execution matches the answer of the interpreter. -/
theorem matches_of_interpret (hlimit : setting.registry.configuration.maxDrainSteps = none)
    {depth fuel : Nat} {a : Answer} (ha : interpret setting world tree root depth = some a)
    {response : Response} {after : W}
    (hr : execute setting tree root fuel world = some (response, after)) :
    Matches response a := by
  obtain ⟨past, last, hreach, hd, error, he, hends⟩ := execute_eq_some hk hr
  obtain ⟨rfl, hw⟩ := hends.works_eq_nil h hc hlimit (hreach.quiet hk h hc)
  obtain ⟨owed, lost, hset, herr, -⟩ := hreach.outlook h hk hc (outlook_start ha)
  rw [hw] at hset
  obtain ⟨hfinal, rfl, rfl⟩ := hset.of_nil
  refine ⟨hfinal ▸ hd, ?_⟩
  intro hn
  simpa [he] using (herr hn).2

/-- The errors of the response that lead to slots of its data are those of the answer of the
interpreter that do. -/
theorem leading_of_interpret (hlimit : setting.registry.configuration.maxDrainSteps = none)
    {depth fuel : Nat} {a : Answer} (ha : interpret setting world tree root depth = some a)
    {response : Response} {after : W}
    (hr : execute setting tree root fuel world = some (response, after)) :
    (response.errors.filter (leadsTo a.value)).Perm (a.errors.filter (leadsTo a.value)) := by
  obtain ⟨past, last, hreach, hd, error, he, hends⟩ := execute_eq_some hk hr
  obtain ⟨rfl, hw⟩ := hends.works_eq_nil h hc hlimit (hreach.quiet hk h hc)
  obtain ⟨owed, lost, hset, -, hleads⟩ := hreach.outlook h hk hc (outlook_start ha)
  rw [hw] at hset
  obtain ⟨-, rfl, -⟩ := hset.of_nil
  simpa [he] using hleads

/-- The engine ends if the interpreter has an answer. -/
theorem ends_of_interpret (hlimit : setting.registry.configuration.maxDrainSteps = none)
    (hready : ∀ task, ∃ fuel outcome,
      Polling.await setting.host.poll world fuel task = some outcome)
    {depth : Nat} {a : Answer} (ha : interpret setting world tree root depth = some a) :
    ∃ enough, ∀ fuel, enough ≤ fuel → ∃ response after,
      execute setting tree root fuel world = some (response, after) := by
  have hsteady : Steady setting tree.root world depth (.start root tree world) :=
    { sound := ⟨[], sound_start ..⟩
      quiet := Reaches.start.quiet hk h hc
      bounded := by
        intro work hw _
        have hw : work ∈ [Work.object ⟨[], .object (.host root), tree.root.owner, tree.root⟩] :=
          hw
        rw [List.mem_singleton.1 hw]
        exact Option.isSome_iff_exists.2 ⟨a, ha⟩ }
  obtain ⟨enough, hrun⟩ := run_ends h hk hc hlimit hready hsteady
  refine ⟨enough, ?_⟩
  intro fuel hle
  obtain ⟨final, hfinal⟩ := hrun fuel hle
  refine ⟨response none final, final.world, ?_⟩
  rw [execute, hfinal]
  rfl

/-- The interpreter has an answer if the engine ends. -/
theorem exists_interpret (hlimit : setting.registry.configuration.maxDrainSteps = none)
    {fuel : Nat} {response : Response} {after : W}
    (hr : execute setting tree root fuel world = some (response, after)) :
    ∃ depth a, interpret setting world tree root depth = some a := by
  obtain ⟨past, last, hreach, -, error, -, hends⟩ := execute_eq_some hk hr
  obtain ⟨-, hw⟩ := hends.works_eq_nil h hc hlimit (hreach.quiet hk h hc)
  have hanswerable := hreach.answerable h hk hc fun work hm => by
    rw [hw] at hm
    cases hm
  obtain ⟨a, depth, ha⟩ := hanswerable
    (.object ⟨[], .object (.host root), tree.root.owner, tree.root⟩) (List.mem_cons_self ..)
    (by simp [Work.path])
  exact ⟨depth, a, ha⟩

/-- The engine ends if and only if the interpreter has an answer. -/
theorem ends_iff_interpret (hlimit : setting.registry.configuration.maxDrainSteps = none)
    (hready : ∀ task, ∃ fuel outcome,
      Polling.await setting.host.poll world fuel task = some outcome) :
    (∃ fuel, (execute setting tree root fuel world).isSome)
      ↔ ∃ depth, (interpret setting world tree root depth).isSome := by
  constructor
  · rintro ⟨fuel, hends⟩
    obtain ⟨⟨response, after⟩, hr⟩ := Option.isSome_iff_exists.1 hends
    obtain ⟨depth, a, ha⟩ := exists_interpret h hk hc hlimit hr
    exact ⟨depth, by rw [ha]; rfl⟩
  · rintro ⟨depth, hanswer⟩
    obtain ⟨a, ha⟩ := Option.isSome_iff_exists.1 hanswer
    obtain ⟨enough, hends⟩ := ends_of_interpret h hk hc hlimit hready ha
    obtain ⟨response, after, hr⟩ := hends enough (Nat.le_refl _)
    exact ⟨enough, by rw [hr]; rfl⟩

end

/-- The engine refines the interpreter: it ends if and only if the interpreter has an answer, and
its response matches that answer. -/
theorem execute_refines_interpret {setting : Setting W O C T}
    {tree : SelectionTree (Definition W O C T)} (hk : tree.root.KeysDistinct) {world : W}
    (h : SideEffectFree setting tree.root world)
    (hready : ∀ task, ∃ fuel outcome,
      Polling.await setting.host.poll world fuel task = some outcome)
    (hc : setting.host.cancelled world = false)
    (hlimit : setting.registry.configuration.maxDrainSteps = none) (root : O) :
    (∀ depth a, interpret setting world tree root depth = some a → ∃ enough, ∀ fuel,
        enough ≤ fuel → ∃ response after,
          execute setting tree root fuel world = some (response, after)
            ∧ Matches response a)
      ∧ ∀ fuel response after, execute setting tree root fuel world = some (response, after) →
        ∃ depth a, interpret setting world tree root depth = some a
          ∧ Matches response a := by
  constructor
  · intro depth a ha
    obtain ⟨enough, hends⟩ := ends_of_interpret h hk hc hlimit hready ha
    refine ⟨enough, ?_⟩
    intro fuel hle
    obtain ⟨response, after, hexecute⟩ := hends fuel hle
    exact ⟨response, after, hexecute, matches_of_interpret h hk hc hlimit ha hexecute⟩
  · intro fuel response after hr
    obtain ⟨depth, a, ha⟩ := exists_interpret h hk hc hlimit hr
    exact ⟨depth, a, ha, matches_of_interpret h hk hc hlimit ha hr⟩

/-- A resolver that answers with a task. -/
def slowDefinition : Definition Unit Unit Unit Bool :=
  ⟨.default "Query" "name", { strategy := .custom fun _ _ => pure (.ok (.lazy true)) }⟩

/-- A field with that resolver. -/
def slowField : Node (Definition Unit Unit Unit Bool) :=
  { Node.ofField ⟨0, none, "name", [], [], "Query", .named "String"⟩ false with
    definitions := [slowDefinition] }

/-- The selection of one such field. -/
def slowTree : SelectionTree (Definition Unit Unit Unit Bool) :=
  ⟨.query, { Node.root "Query" with buckets := [⟨"Query", [slowField]⟩] }⟩

/-- A host of tasks that are ready at the second poll. -/
def slowSetting : Setting Unit Unit Unit Bool :=
  bareSetting fun task =>
    if task then .waiting false else .ready (.ok (.value (.string "done")))

/-- A node of the tree is the root or its one field. -/
theorem slowTree_within {node : Node (Definition Unit Unit Unit Bool)}
    (h : Node.Within slowTree.root node) : node = slowTree.root ∨ node = slowField := by
  induction h with
  | root => exact .inl rfl
  | child _ hc ih =>
    obtain ⟨bucket, hb, hc⟩ := hc
    rcases ih with rfl | rfl
    · rw [List.mem_singleton.1 hb] at hc
      exact .inr (List.mem_singleton.1 hc)
    · cases hb

/-- No two nodes of the tree share a key in one object. -/
theorem slowTree_keysDistinct : slowTree.root.KeysDistinct := by
  intro node hw bucket hb
  rcases slowTree_within hw with rfl | rfl
  · rw [List.mem_singleton.1 hb]
    simp
  · cases hb

/-- Nothing but the task of the tree needs time, and nothing changes the world. -/
theorem slowTree_sideEffectFree : SideEffectFree slowSetting slowTree.root () where
  host := bareSetting_keeps _ ()
  descriptors node hw definition hd := by
    rcases slowTree_within hw with rfl | rfl
    · cases hd
    · rw [List.mem_singleton.1 hd]
      exact
        { resolver := fun _ h _ _ => by cases h; rfl
          lazyResolver := nofun
          connection := nofun }
  deferred := nofun

/-- The interpreter awaits the task, and so does the engine. -/
theorem execute_refines_interpret_slowTree :
    ∃ a, interpret slowSetting () slowTree () 3 = some a
      ∧ a.value = .object [("name", .string "done")]
      ∧ ∃ enough, ∀ fuel, enough ≤ fuel → ∃ response after,
        execute slowSetting slowTree () fuel () = some (response, after) ∧ Matches response a :=
  ⟨_, rfl, rfl, (execute_refines_interpret slowTree_keysDistinct slowTree_sideEffectFree
    (fun task => match task with
      | true => ⟨2, _, rfl⟩
      | false => ⟨1, _, rfl⟩) rfl rfl ()).1 3 _ rfl⟩

end QueryEngine.Execution
