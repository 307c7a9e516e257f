import Mathlib.Data.List.Forall2
import Mathlib.Data.List.Nodup
import QueryEngine.Proofs.Json.Parts

/-!
# Values up to the order of keys

`Json.Permuted` says that two values are the same but for the order of the keys in the objects that
they are built of. Such values have the same slots (`Permuted.isSome_at?`).
-/

namespace QueryEngine.Json

/-- The values are the same up to the order of keys in objects. -/
inductive Permuted : Json → Json → Prop
  | refl (value : Json) : Permuted value value
  | array {items items' : List Json} (h : List.Forall₂ Permuted items items') :
    Permuted (.array items) (.array items')
  | object {fields middle fields' : Fields} (distinct : (fields.map Prod.fst).Nodup)
    (keys : fields.map Prod.fst = middle.map Prod.fst)
    (values : List.Forall₂ Permuted (fields.map Prod.snd) (middle.map Prod.snd))
    (order : middle.Perm fields') : Permuted (.object fields) (.object fields')

/-- Entries with distinct keys are found in any order. -/
theorem lookup_perm {α : Type} {fields fields' : List (String × α)}
    (hn : (fields.map Prod.fst).Nodup) (hp : fields.Perm fields') (key : String) :
    fields.lookup key = fields'.lookup key := by
  induction hp with
  | nil => rfl
  | cons entry _ ih =>
    obtain ⟨-, hn⟩ := List.nodup_cons.1 hn
    rw [List.lookup_cons, List.lookup_cons, ih hn]
  | swap a b rest =>
    have hne : a.1 ≠ b.1 := by
      intro he
      simp [he] at hn
    rw [List.lookup_cons, List.lookup_cons, List.lookup_cons, List.lookup_cons]
    cases ha : key == a.1 with
    | false => rfl
    | true =>
      have hb : (key == b.1) = false := by
        rw [eq_of_beq ha]
        exact beq_false_of_ne hne
      rw [hb]
  | trans hp _ ih ih' => rw [ih hn, ih' ((hp.map _).nodup_iff.1 hn)]

/-- Values that correspond to each other are found under the same keys. -/
theorem rel_lookup {α : Type} {R : α → α → Prop} {fields middle : List (String × α)}
    (hk : fields.map Prod.fst = middle.map Prod.fst)
    (hv : List.Forall₂ R (fields.map Prod.snd) (middle.map Prod.snd)) (key : String) :
    Option.Rel R (fields.lookup key) (middle.lookup key) := by
  induction fields generalizing middle with
  | nil =>
    obtain rfl : middle = [] := by simpa using hk.symm
    exact .none
  | cons entry rest ih =>
    cases middle with
    | nil => cases hk
    | cons other others =>
      obtain ⟨hkey, hkeys⟩ := List.cons.inj hk
      obtain ⟨hvalue, hvalues⟩ := List.forall₂_cons.1 hv
      rw [List.lookup_cons, List.lookup_cons, hkey]
      split
      · exact .some hvalue
      · exact ih hkeys hvalues

/-- The parts of values that are the same up to the order of keys are so, too. -/
theorem Permuted.rel_child? {a b : Json} (h : a.Permuted b) (s : Segment) :
    Option.Rel Permuted (a.child? s) (b.child? s) := by
  cases h with
  | refl =>
    cases a.child? s with
    | none => exact .none
    | some value => exact .some (.refl value)
  | @array items items' h =>
    cases s with
    | key name => exact .none
    | index i =>
      show Option.Rel Permuted items[i]? items'[i]?
      induction h generalizing i with
      | nil => exact .none
      | cons hfirst _ ih =>
        cases i with
        | zero => exact .some hfirst
        | succ i => exact ih i
  | object distinct keys values order =>
    cases s with
    | index i => exact .none
    | key name =>
      have hlookup := lookup_perm (keys ▸ distinct) order name
      show Option.Rel Permuted (List.lookup name _) (List.lookup name _)
      rw [← hlookup]
      exact rel_lookup keys values name

/-- Values that are the same up to the order of keys have the same slots. -/
theorem Permuted.isSome_at? {a b : Json} (h : a.Permuted b) (path : Path) :
    (a.at? path).isSome = (b.at? path).isSome := by
  induction path generalizing a b with
  | nil => simp
  | cons s path ih =>
    have hchild := h.rel_child? s
    rw [at?_cons, at?_cons]
    generalize a.child? s = x at hchild
    generalize b.child? s = y at hchild
    cases hchild with
    | none => rfl
    | some hvalue => exact ih hvalue

end QueryEngine.Json
