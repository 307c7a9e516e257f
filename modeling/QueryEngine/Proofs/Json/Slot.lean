import QueryEngine.Json.Path

/-!
# Slots of a JSON value

A path names a slot of a value, and `Json.fill` writes it. Reading and writing obey the laws of a
lens: what is written is read back (`at?_fill_append`), a write into a part of what was written
before is one write (`fill_fill_append`), and writes to slots of which neither lies within the
other (`Path.Apart`) do not see each other (`at?_fill_of_apart`, `fill_comm`). All of it comes from
the same laws for one step, `child?` and `setChild`.
-/

namespace QueryEngine

namespace Entries

variable {κ α : Type} [DecidableEq κ]

/-- Putting back what is there changes nothing. -/
theorem put_of_lookup {key : κ} {value : α} {entries : List (κ × α)}
    (h : entries.lookup key = some value) : put key value entries = entries := by
  induction entries with
  | nil => cases h
  | cons entry rest ih =>
    obtain ⟨k, v⟩ := entry
    by_cases hk : k = key
    · subst hk
      simp only [List.lookup_cons, beq_self_eq_true, Option.some.injEq] at h
      simp [put, h]
    · have hk' : (key == k) = false := by simpa using fun e => hk e.symm
      rw [List.lookup_cons, hk'] at h
      simp [put, hk, ih h]

/-- Of two values put under one key the later one stays. -/
theorem put_put_self (key : κ) (old new : α) (entries : List (κ × α)) :
    put key new (put key old entries) = put key new entries := by
  induction entries with
  | nil => simp [put]
  | cons entry rest ih =>
    obtain ⟨k, v⟩ := entry
    by_cases hk : k = key <;> simp [put, hk, ih]

/-- Entries that are there can be overwritten in any order. -/
theorem put_comm {a b : κ} (hab : a ≠ b) {x y : α} {entries : List (κ × α)}
    (ha : (entries.lookup a).isSome) (hb : (entries.lookup b).isSome) :
    put a x (put b y entries) = put b y (put a x entries) := by
  induction entries with
  | nil => cases ha
  | cons entry rest ih =>
    obtain ⟨k, v⟩ := entry
    by_cases hka : k = a
    · subst hka
      simp [put, hab]
    · by_cases hkb : k = b
      · subst hkb
        simp [put, hka]
      · have ha' : (a == k) = false := by simpa using fun e => hka e.symm
        have hb' : (b == k) = false := by simpa using fun e => hkb e.symm
        rw [List.lookup_cons, ha'] at ha
        rw [List.lookup_cons, hb'] at hb
        simp [put, hka, hkb, ih ha hb]

end Entries

namespace Json

/-! ## One step -/

/-- The part of a value that one step leads to. -/
def child? : Json → Segment → Option Json
  | .object fields, .key name => fields.lookup name
  | .array items, .index i => items[i]?
  | _, _ => none

/-- Replaces the part that one step leads to. -/
def setChild : Json → Segment → Json → Json
  | .object fields, .key name, new => .object (Entries.put name new fields)
  | .array items, .index i, new => .array (items.set i new)
  | data, _, _ => data

@[simp] theorem child?_null (s : Segment) : child? .null s = none := by cases s <;> rfl

@[simp] theorem child?_emptyObject (s : Segment) : child? (.object []) s = none := by
  cases s <;> rfl

/-- What is put in a place that is there is found in it. -/
theorem child?_setChild {data old : Json} {s : Segment} (h : data.child? s = some old)
    (new : Json) : (data.setChild s new).child? s = some new := by
  cases data <;> cases s <;> simp only [child?, reduceCtorEq] at h
  · simp only [setChild, child?, List.getElem?_set_self (List.getElem?_eq_some_iff.1 h).1]
  · exact Entries.lookup_put_self _ _ _

/-- The other places keep what they had. -/
theorem child?_setChild_of_ne {s t : Segment} (h : s ≠ t) (data new : Json) :
    (data.setChild s new).child? t = data.child? t := by
  cases data <;> cases s <;> cases t <;> simp only [setChild, child?]
  · rw [List.getElem?_set_ne (by simpa using h)]
  · exact Entries.lookup_put_of_ne (by simpa [eq_comm] using h) _ _

/-- Of two values put in one place the later one counts. -/
theorem setChild_setChild (data old new : Json) (s : Segment) :
    (data.setChild s old).setChild s new = data.setChild s new := by
  cases data <;> cases s <;> simp only [setChild]
  · simp
  · rw [Entries.put_put_self]

/-- To put in a place what it holds changes nothing. -/
theorem setChild_self {data old : Json} {s : Segment} (h : data.child? s = some old) :
    data.setChild s old = data := by
  cases data <;> cases s <;> simp only [child?, reduceCtorEq] at h
  · obtain ⟨hi, rfl⟩ := List.getElem?_eq_some_iff.1 h
    simp [setChild]
  · simp [setChild, Entries.put_of_lookup h]

/-- It does not matter which of two places is filled first, if both are there. -/
theorem setChild_comm {s t : Segment} (hst : s ≠ t) {data : Json} (hs : (data.child? s).isSome)
    (ht : (data.child? t).isSome) (a b : Json) :
    (data.setChild s a).setChild t b = (data.setChild t b).setChild s a := by
  cases data <;> cases s <;> cases t <;> simp only [child?, Option.isSome_none,
    Bool.false_eq_true] at hs ht
  · simp only [setChild]
    rw [List.set_comm _ _ (by simpa using hst)]
  · simp only [setChild]
    rw [Entries.put_comm (by simpa [eq_comm] using hst) ht hs]

/-! ## Paths -/

/-- The value with the slot at a path replaced; the value itself if there is no such slot. -/
def fill (data : Json) (path : Path) (value : Json) : Json :=
  (data.setAt? path value).getD data

@[simp] theorem at?_nil (data : Json) : data.at? [] = some data := by cases data <;> rfl

@[simp] theorem fill_nil (data value : Json) : data.fill [] value = value := by
  cases data <;> rfl

/-- What is at a path is found step by step. -/
theorem at?_cons (data : Json) (s : Segment) (path : Path) :
    data.at? (s :: path) = (data.child? s).bind (·.at? path) := by
  cases data <;> cases s <;> rfl

/-- A write goes down step by step, and the values around it are put back on the way up. -/
theorem setAt?_cons (data : Json) (s : Segment) (path : Path) (value : Json) :
    data.setAt? (s :: path) value
      = (data.child? s).bind fun old => (old.setAt? path value).map (data.setChild s) := by
  cases data <;> cases s <;> rfl

/-- The slots that can be written are those that can be read. -/
theorem isSome_setAt? (data : Json) (path : Path) (value : Json) :
    (data.setAt? path value).isSome = (data.at? path).isSome := by
  induction path generalizing data with
  | nil => cases data <;> rfl
  | cons s path ih =>
    rw [setAt?_cons, at?_cons]
    cases data.child? s with
    | none => rfl
    | some old => simp [ih]

/-- A write succeeds at a path that is there, and fills it. -/
theorem setAt?_eq_some {data : Json} {path : Path} (h : (data.at? path).isSome) (value : Json) :
    data.setAt? path value = some (data.fill path value) := by
  rw [← isSome_setAt? data path value] at h
  obtain ⟨new, hn⟩ := Option.isSome_iff_exists.1 h
  simp [fill, hn]

/-- A write fails at a path that is not there. -/
theorem setAt?_eq_none {data : Json} {path : Path} (h : data.at? path = none) (value : Json) :
    data.setAt? path value = none := by
  have := isSome_setAt? data path value
  simpa [h] using this

/-- Writing to a slot that does not exist changes nothing. -/
theorem fill_of_none {data : Json} {path : Path} (h : data.at? path = none) (value : Json) :
    data.fill path value = data := by
  simp [fill, setAt?_eq_none h]

/-- Filling goes down through a place that is there. -/
theorem fill_cons {data old : Json} {s : Segment} (h : data.child? s = some old) (path : Path)
    (value : Json) : data.fill (s :: path) value = data.setChild s (old.fill path value) := by
  rw [fill, setAt?_cons, h, Option.bind_some]
  cases ho : old.setAt? path value with
  | none => simp [fill, ho, setChild_self h]
  | some new => simp [fill, ho]

/-- Filling below a place that is not there changes nothing. -/
theorem fill_cons_of_none {data : Json} {s : Segment} (h : data.child? s = none) (path : Path)
    (value : Json) : data.fill (s :: path) value = data :=
  fill_of_none (by simp [at?_cons, h]) value

/-- What is at a path in two parts is at the second part of what is at the first. -/
theorem at?_append (data : Json) (path rest : Path) :
    data.at? (path ++ rest) = (data.at? path).bind (·.at? rest) := by
  induction path generalizing data with
  | nil => simp
  | cons s path ih =>
    rw [List.cons_append, at?_cons, at?_cons]
    cases data.child? s with
    | none => rfl
    | some old => simp [ih]

/-- So it is found from a value that is known to be at the first part. -/
theorem at?_append_of_eq {data value : Json} {path : Path} (h : data.at? path = some value)
    (rest : Path) : data.at? (path ++ rest) = value.at? rest := by
  simp [at?_append, h]

/-- Below a slot that was written lies what was written. -/
theorem at?_fill_append {data : Json} {path : Path} (h : (data.at? path).isSome) (value : Json)
    (rest : Path) : (data.fill path value).at? (path ++ rest) = value.at? rest := by
  induction path generalizing data with
  | nil => simp
  | cons s path ih =>
    rw [at?_cons] at h
    cases hs : data.child? s with
    | none => simp [hs] at h
    | some old =>
      simp only [hs, Option.bind_some] at h
      rw [fill_cons hs, List.cons_append, at?_cons, child?_setChild hs, Option.bind_some, ih h]

/-- What fills a path that is there is found at it. -/
theorem at?_fill_self {data : Json} {path : Path} (h : (data.at? path).isSome) (value : Json) :
    (data.fill path value).at? path = some value := by
  simpa using at?_fill_append h value []

/-- Above a slot that was written lies what was there, with the slot written. -/
theorem at?_fill_above (data : Json) (path rest : Path) (value : Json) :
    (data.fill (path ++ rest) value).at? path = (data.at? path).map (·.fill rest value) := by
  induction path generalizing data with
  | nil => simp
  | cons s path ih =>
    rw [List.cons_append]
    cases hs : data.child? s with
    | none => rw [fill_cons_of_none hs]; simp [at?_cons, hs]
    | some old => rw [fill_cons hs]; simp [at?_cons, hs, child?_setChild hs, ih]

/-- Writing back what a slot holds changes nothing. -/
theorem fill_self {data value : Json} {path : Path} (h : data.at? path = some value) :
    data.fill path value = data := by
  induction path generalizing data with
  | nil => simpa using h.symm
  | cons s path ih =>
    rw [at?_cons] at h
    obtain ⟨old, hs, h⟩ := Option.bind_eq_some_iff.1 h
    rw [fill_cons hs, ih h, setChild_self hs]

/-- A write within what was just written is part of that write. -/
theorem fill_fill_append {data : Json} {path : Path} (h : (data.at? path).isSome)
    (value : Json) (rest : Path) (inner : Json) :
    (data.fill path value).fill (path ++ rest) inner
      = data.fill path (value.fill rest inner) := by
  induction path generalizing data with
  | nil => simp
  | cons s path ih =>
    rw [at?_cons] at h
    cases hs : data.child? s with
    | none => simp [hs] at h
    | some old =>
      simp only [hs, Option.bind_some] at h
      rw [List.cons_append, fill_cons hs, fill_cons (child?_setChild hs _), setChild_setChild,
        ih h, fill_cons hs]

/-- What was written within a slot is lost when the slot is written. -/
theorem fill_append_fill (data : Json) (path rest : Path) (inner value : Json) :
    (data.fill (path ++ rest) inner).fill path value = data.fill path value := by
  induction path generalizing data with
  | nil => simp
  | cons s path ih =>
    rw [List.cons_append]
    cases hs : data.child? s with
    | none => rw [fill_cons_of_none hs]
    | some old =>
      rw [fill_cons hs, fill_cons (child?_setChild hs _), setChild_setChild, ih, fill_cons hs]

/-- Of two writes to one slot the later one stays. -/
theorem fill_fill_self {data : Json} {path : Path} (h : (data.at? path).isSome)
    (old new : Json) : (data.fill path old).fill path new = data.fill path new := by
  simpa using fill_fill_append h old [] new

end Json

/-! ## Slots apart from each other -/

namespace Path

/-- Neither of two slots lies within the other. -/
def Apart (p q : Path) : Prop := ¬ p <+: q ∧ ¬ q <+: p

/-- Paths that part ways do so in either order. -/
theorem Apart.symm {p q : Path} (h : Apart p q) : Apart q p := ⟨h.2, h.1⟩

/-- Two slots apart from each other part after some steps they share. -/
theorem Apart.cons_iff {s t : Segment} {p q : Path} :
    Apart (s :: p) (t :: q) ↔ s ≠ t ∨ (s = t ∧ Apart p q) := by
  by_cases hst : s = t
  · subst hst
    simp [Apart, List.cons_prefix_cons]
  · have hts : t ≠ s := fun e => hst e.symm
    simp [Apart, List.cons_prefix_cons, hst, hts]

/-- The empty path parts ways with none. -/
theorem not_apart_nil_left (q : Path) : ¬ Apart [] q := fun h => h.1 List.nil_prefix

/-- No path parts ways with the empty one. -/
theorem not_apart_nil_right (p : Path) : ¬ Apart p [] := fun h => h.2 List.nil_prefix

/-- A path that parts ways with another one does so below. -/
theorem Apart.append_left {p q : Path} (h : Apart p q) (r : Path) : Apart (p ++ r) q := by
  refine ⟨fun hp => h.1 ((List.prefix_append p r).trans hp), ?_⟩
  intro hq
  rcases List.prefix_or_prefix_of_prefix hq (List.prefix_append p r) with hqp | hpq
  · exact h.2 hqp
  · exact h.1 hpq

/-- So does the other one. -/
theorem Apart.append_right {p q : Path} (h : Apart p q) (r : Path) : Apart p (q ++ r) :=
  (h.symm.append_left r).symm

end Path

namespace Json

/-- A write behind one step is not seen behind another. -/
theorem child?_fill_of_ne {s t : Segment} (h : s ≠ t) (data value : Json) (path : Path) :
    (data.fill (s :: path) value).child? t = data.child? t := by
  cases hs : data.child? s with
  | none => rw [fill_cons_of_none hs]
  | some old => rw [fill_cons hs, child?_setChild_of_ne h]

/-- A write is not seen in a slot apart from it. -/
theorem at?_fill_of_apart {p q : Path} (h : Path.Apart p q) (data value : Json) :
    (data.fill p value).at? q = data.at? q := by
  induction p generalizing data q with
  | nil => exact absurd h (Path.not_apart_nil_left q)
  | cons s p ih =>
    cases q with
    | nil => exact absurd h (Path.not_apart_nil_right _)
    | cons t q =>
      rw [at?_cons, at?_cons]
      rcases Path.Apart.cons_iff.1 h with hst | ⟨rfl, hpq⟩
      · rw [child?_fill_of_ne hst]
      · cases hs : data.child? s with
        | none => rw [fill_cons_of_none hs, hs]
        | some old =>
          rw [fill_cons hs, child?_setChild hs]
          exact ih hpq old

/-- Writes behind different steps can be made in any order. -/
theorem fill_cons_comm {s t : Segment} (hst : s ≠ t) (data a b : Json) (p q : Path) :
    (data.fill (s :: p) a).fill (t :: q) b = (data.fill (t :: q) b).fill (s :: p) a := by
  have hs' := child?_fill_of_ne (Ne.symm hst) data b q
  have ht' := child?_fill_of_ne hst data a p
  cases hs : data.child? s with
  | none => rw [fill_cons_of_none hs, fill_cons_of_none (hs'.trans hs)]
  | some old =>
    cases ht : data.child? t with
    | none => rw [fill_cons_of_none ht, fill_cons_of_none (ht'.trans ht)]
    | some other =>
      rw [fill_cons (ht'.trans ht), fill_cons (hs'.trans hs), fill_cons hs, fill_cons ht,
        setChild_comm hst (by simp [hs]) (by simp [ht])]

/-- Writes to slots apart from each other can be made in any order. -/
theorem fill_comm {p q : Path} (h : Path.Apart p q) (data a b : Json) :
    (data.fill p a).fill q b = (data.fill q b).fill p a := by
  induction p generalizing data q with
  | nil => exact absurd h (Path.not_apart_nil_left q)
  | cons s p ih =>
    cases q with
    | nil => exact absurd h (Path.not_apart_nil_right _)
    | cons t q =>
      rcases Path.Apart.cons_iff.1 h with hst | ⟨rfl, hpq⟩
      · exact fill_cons_comm hst data a b p q
      · cases hs : data.child? s with
        | none => rw [fill_cons_of_none hs, fill_cons_of_none hs, fill_cons_of_none hs]
        | some old =>
          rw [fill_cons hs, fill_cons hs, fill_cons (child?_setChild hs _),
            fill_cons (child?_setChild hs _), setChild_setChild, setChild_setChild, ih hpq]

/-- A value in the slot `path`, without what it has in `slot` if that slot lies within it. -/
def blank (slot path : Path) (value : Json) : Json :=
  if path <+: slot then value.fill (slot.drop path.length) .null else value

/-- Blanking a slot commutes with writes to slots that do not lie within it. -/
theorem fill_fill_null {data : Json} {slot path : Path} (hs : ¬ slot <+: path)
    (hp : (data.at? path).isSome) (value : Json) :
    (data.fill path value).fill slot .null
      = (data.fill slot .null).fill path (value.blank slot path) := by
  by_cases h : path <+: slot
  · obtain ⟨rest, rfl⟩ := h
    rw [fill_fill_append hp, fill_append_fill, blank, if_pos (List.prefix_append ..),
      List.drop_left]
  · rw [fill_comm ⟨h, hs⟩, blank, if_neg h]

/-- Blanking a slot leaves the slots that do not lie within it. -/
theorem isSome_at?_fill_null {slot path : Path} (hs : ¬ slot <+: path) (data : Json) :
    ((data.fill slot .null).at? path).isSome = (data.at? path).isSome := by
  by_cases h : path <+: slot
  · obtain ⟨rest, rfl⟩ := h
    rw [at?_fill_above, Option.isSome_map]
  · rw [at?_fill_of_apart ⟨hs, h⟩]

end Json

end QueryEngine
