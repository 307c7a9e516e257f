import QueryEngine.Proofs.Json.Slot

/-!
# Values put together from parts

An array or an object that is put together from parts, each under its own step. Reading a step
gives the part (`child?_build_iff`), writing one exchanges the part (`setChild_build`), whichever
of the two the value is.
-/

namespace QueryEngine

/-- What holds parts together. -/
inductive Container where
  | array
  | object

namespace Container

/-- The value with the given parts, in order. -/
def build : Container → List (Segment × Json) → Json
  | .array, parts => .array (parts.map Prod.snd)
  | .object, parts => .object (parts.map fun part => (part.1.text, part.2))

/-- Steps that the parts of a value can stand under: the positions of an array, or distinct keys. -/
def Admits : Container → List Segment → Prop
  | .array, steps => steps = (List.range steps.length).map .index
  | .object, steps => steps.Nodup ∧ ∀ s ∈ steps, ∃ name, s = .key name

/-- The steps into a container are distinct: positions are, and so are keys that it admits. -/
theorem Admits.nodup {c : Container} {steps : List Segment} (h : c.Admits steps) :
    steps.Nodup := by
  cases c with
  | array =>
    unfold Admits at h
    rw [h]
    exact List.Pairwise.map _ (fun _ _ hne e => hne (Segment.index.inj e)) List.nodup_range
  | object => exact h.1

/-- The positions of an array. -/
theorem admits_array (n : Nat) : Container.array.Admits ((List.range n).map .index) := by
  simp [Admits]

/-- Distinct keys. -/
theorem admits_object {keys : List String} (h : keys.Nodup) :
    Container.object.Admits (keys.map .key) := by
  refine ⟨List.Pairwise.map _ (fun _ _ hne e => hne (Segment.key.inj e)) h, ?_⟩
  intro s hs
  obtain ⟨name, -, rfl⟩ := List.mem_map.1 hs
  exact ⟨name, rfl⟩

/-- In an array the step of a part is its position. -/
theorem Admits.getElem_array {steps : List Segment} (h : Container.array.Admits steps) {i : Nat}
    (hi : i < steps.length) : steps[i] = .index i := by
  unfold Admits at h
  have : steps[i]? = ((List.range steps.length).map Segment.index)[i]? := by rw [← h]
  simpa [hi] using this

@[simp] theorem text_key (name : String) : (Segment.key name).text = name := rfl

/-- In an object the part under a distinct key is found under that key. -/
theorem lookup_text {parts : List (Segment × Json)} {name : String} {value : Json}
    (h : Container.object.Admits (parts.map Prod.fst)) :
    (parts.map fun part => (part.1.text, part.2)).lookup name = some value
      ↔ (.key name, value) ∈ parts := by
  induction parts with
  | nil => simp
  | cons part rest ih =>
    obtain ⟨s, v⟩ := part
    obtain ⟨hnd, hkeys⟩ := h
    rw [List.map_cons, List.nodup_cons] at hnd
    obtain ⟨key, rfl⟩ := hkeys s (by simp)
    have ih := ih ⟨hnd.2, fun t ht => hkeys t (List.mem_cons_of_mem _ ht)⟩
    by_cases hk : name = key
    · subst hk
      simp only [List.map_cons, text_key, List.lookup_cons, beq_self_eq_true,
        Option.some.injEq, List.mem_cons, Prod.mk.injEq, true_and]
      constructor
      · exact fun e => .inl e.symm
      · rintro (e | hm)
        · exact e.symm
        · exact absurd (List.mem_map_of_mem (f := Prod.fst) hm) hnd.1
    · have hk' : (name == key) = false := by simpa using hk
      simp [List.lookup_cons, hk', ih, hk]

/-- A step leads to the part that stands under it. -/
theorem child?_build_iff {c : Container} {parts : List (Segment × Json)}
    (h : c.Admits (parts.map Prod.fst)) {s : Segment} {value : Json} :
    (c.build parts).child? s = some value ↔ (s, value) ∈ parts := by
  cases c with
  | array =>
    have hget : ∀ {i : Nat} (hi : i < parts.length), parts[i].1 = .index i := by
      intro i hi
      rw [← h.getElem_array (i := i) (by simpa using hi), List.getElem_map]
    cases s with
    | index i =>
      simp only [build, Json.child?, List.getElem?_map, Option.map_eq_some_iff]
      constructor
      · rintro ⟨⟨s, v⟩, hp, rfl⟩
        obtain ⟨hi, he⟩ := List.getElem?_eq_some_iff.1 hp
        have := hget hi
        rw [he] at this
        exact this ▸ List.mem_of_getElem? hp
      · intro hm
        obtain ⟨j, hj, he⟩ := List.getElem_of_mem hm
        have := hget hj
        rw [he] at this
        cases this
        exact ⟨_, List.getElem?_eq_some_iff.2 ⟨hj, he⟩, rfl⟩
    | key name =>
      simp only [build, Json.child?, reduceCtorEq, false_iff]
      intro hm
      obtain ⟨j, hj, he⟩ := List.getElem_of_mem hm
      have := hget hj
      rw [he] at this
      cases this
  | object =>
    cases s with
    | index i =>
      simp only [build, Json.child?, reduceCtorEq, false_iff]
      intro hm
      obtain ⟨name, hn⟩ := h.2 _ (List.mem_map_of_mem (f := Prod.fst) hm)
      cases hn
    | key name => exact lookup_text h

/-- Overwriting the part under a key leaves the other parts as they are. -/
theorem put_text {before after : List (Segment × Json)} {name : String} {old : Json}
    (h : Segment.key name ∉ before.map Prod.fst) (hk : ∀ s ∈ before.map Prod.fst, ∃ n, s = .key n)
    (new : Json) :
    Entries.put name new ((before ++ (.key name, old) :: after).map fun part =>
        (part.1.text, part.2))
      = (before ++ (.key name, new) :: after).map fun part => (part.1.text, part.2) := by
  induction before with
  | nil => simp [Entries.put]
  | cons part rest ih =>
    obtain ⟨s, v⟩ := part
    obtain ⟨key, rfl⟩ := hk s (by simp)
    have hne : ¬ key = name := fun e => h (by simp [e])
    have ih := ih (fun hm => h (List.mem_cons_of_mem _ hm))
      fun t ht => hk t (List.mem_cons_of_mem _ ht)
    simpa [Entries.put, hne] using ih

/-- Writing to a step exchanges the part that stands under it. -/
theorem setChild_build {c : Container} {before after : List (Segment × Json)} {s : Segment}
    {old : Json} (h : c.Admits ((before ++ (s, old) :: after).map Prod.fst)) (new : Json) :
    (c.build (before ++ (s, old) :: after)).setChild s new
      = c.build (before ++ (s, new) :: after) := by
  have hnd := h.nodup
  cases c with
  | array =>
    have hs := h.getElem_array (i := before.length) (by simp)
    simp only [List.map_append, List.map_cons, List.length_map, Nat.le_refl,
      List.getElem_append_right, Nat.sub_self, List.getElem_cons_zero] at hs
    subst hs
    simp [build, Json.setChild]
  | object =>
    obtain ⟨name, rfl⟩ := h.2 s (by simp)
    simp only [build, Json.setChild]
    rw [put_text]
    · rw [List.map_append, List.map_cons, List.nodup_append] at hnd
      exact fun hm => hnd.2.2 _ hm _ (by simp) rfl
    · exact fun t ht => h.2 t (by rw [List.map_append]; exact List.mem_append_left _ ht)

/-- Below a step lies what lies in the part that stands under it. -/
theorem at?_build {c : Container} {parts : List (Segment × Json)}
    (h : c.Admits (parts.map Prod.fst)) {s : Segment} {value : Json} (hm : (s, value) ∈ parts)
    (rest : Path) : (c.build parts).at? (s :: rest) = value.at? rest := by
  rw [Json.at?_cons, (child?_build_iff h).2 hm, Option.bind_some]

/-- Writing below a step is writing in the part that stands under it. -/
theorem fill_build {c : Container} {before after : List (Segment × Json)} {s : Segment}
    {old : Json} (h : c.Admits ((before ++ (s, old) :: after).map Prod.fst)) (rest : Path)
    (new : Json) :
    (c.build (before ++ (s, old) :: after)).fill (s :: rest) new
      = c.build (before ++ (s, old.fill rest new) :: after) := by
  have hs : (s, old) ∈ before ++ (s, old) :: after := by simp
  rw [Json.fill_cons ((child?_build_iff h).2 hs), setChild_build h]

/-- Writing under one step replaces what stands under it, if anything does. -/
theorem fill_build_step {c : Container} {parts : List (Segment × Json)}
    (h : c.Admits (parts.map Prod.fst)) (s : Segment) (value : Json) :
    (c.build parts).fill [s] value
      = c.build (parts.map fun part => (part.1, if part.1 = s then value else part.2)) := by
  have hother : ∀ others : List (Segment × Json), s ∉ others.map Prod.fst →
      others.map (fun part => (part.1, if part.1 = s then value else part.2)) = others := by
    intro others hs
    rw [List.map_congr_left (g := id) fun part hp => ?_, List.map_id]
    have hne : part.1 ≠ s := fun e => hs (e ▸ List.mem_map_of_mem hp)
    simp [hne]
  by_cases hs : s ∈ parts.map Prod.fst
  · obtain ⟨⟨s, old⟩, hm, rfl⟩ := List.mem_map.1 hs
    obtain ⟨before, after, rfl⟩ := List.append_of_mem hm
    have hnd := h.nodup
    rw [List.map_append, List.map_cons, List.perm_middle.nodup_iff, List.nodup_cons,
      List.mem_append, not_or] at hnd
    rw [fill_build h, Json.fill_nil, List.map_append, List.map_cons, hother _ hnd.1.1,
      hother _ hnd.1.2]
    simp
  · rw [hother _ hs, Json.fill_cons_of_none]
    refine Option.eq_none_iff_forall_not_mem.2 fun old hc => hs ?_
    exact List.mem_map.2 ⟨_, (child?_build_iff h).1 hc, rfl⟩

end Container

end QueryEngine
