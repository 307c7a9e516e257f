import Mathlib.Data.List.Induction
import Mathlib.Data.List.Nodup
import QueryEngine.Entries

/-!
# Keys in the order of their first occurrence

A map that was filled entry by entry has its keys in the order in which they first came
(`Entries.keys_putAll`), and under each of them the value that came last (`Entries.lookup_putAll`).
-/

namespace QueryEngine

variable {κ α : Type} [DecidableEq κ]

/-- A key at the end counts only if it did not come before. -/
theorem eraseDups_concat (keys : List κ) (key : κ) :
    (keys ++ [key]).eraseDups = if key ∈ keys then keys.eraseDups else keys.eraseDups ++ [key] := by
  rw [List.eraseDups_append]
  split <;> simp_all [List.removeAll, List.eraseDups_cons]

/-- No key is left twice. -/
theorem nodup_eraseDups (keys : List κ) : keys.eraseDups.Nodup := by
  induction keys using List.reverseRecOn with
  | nil => exact List.nodup_nil
  | append_singleton keys key ih =>
    rw [eraseDups_concat]
    split
    · exact ih
    · rename_i hk
      refine List.nodup_append.2 ⟨ih, List.nodup_singleton key, fun a ha b hb hab => hk ?_⟩
      rw [← List.mem_singleton.1 hb, ← hab]
      exact List.mem_eraseDups.1 ha

/-- Distinct keys are left as they are. -/
theorem eraseDups_eq_self {keys : List κ} (h : keys.Nodup) : keys.eraseDups = keys := by
  induction keys using List.reverseRecOn with
  | nil => rfl
  | append_singleton keys key ih =>
    obtain ⟨hkeys, -, hfresh⟩ := List.nodup_append.1 h
    have hnew : key ∉ keys := fun hm => hfresh key hm key (List.mem_singleton_self key) rfl
    rw [eraseDups_concat, if_neg hnew, ih hkeys]

namespace Entries

/-- With distinct keys every entry is found. -/
theorem lookup_of_mem {entries : List (κ × α)} (h : (entries.map Prod.fst).Nodup)
    {entry : κ × α} (he : entry ∈ entries) : entries.lookup entry.1 = some entry.2 := by
  induction entries with
  | nil => cases he
  | cons first rest ih =>
    obtain ⟨hfresh, hrest⟩ := List.nodup_cons.1 h
    rcases List.mem_cons.1 he with rfl | hmem
    · exact List.lookup_cons_self
    · have hne : entry.1 ≠ first.1 := fun e => hfresh (e ▸ List.mem_map_of_mem hmem)
      obtain ⟨key, value⟩ := first
      rw [List.lookup_cons, beq_eq_false_iff_ne.2 hne]
      exact ih hrest hmem

/-- A key that is put keeps its place, or goes last if it is new. -/
theorem keys_put {known : List κ} {entries : List (κ × α)}
    (h : entries.map Prod.fst = known.eraseDups) (key : κ) (value : α) :
    (put key value entries).map Prod.fst = (known ++ [key]).eraseDups := by
  have hmem : key ∈ entries.map Prod.fst ↔ key ∈ known := by rw [h, List.mem_eraseDups]
  rw [eraseDups_concat]
  split
  · rename_i hknown
    rw [keys_put_of_mem (hmem.2 hknown), h]
  · rename_i hnew
    rw [keys_put_of_not_mem (fun hm => hnew (hmem.1 hm)), h]

/-- Whatever is put, the keys stand in the order in which each of them came first. -/
theorem keys_putAll {known : List κ} {entries : List (κ × α)}
    (h : entries.map Prod.fst = known.eraseDups) (pairs : List (κ × α)) :
    (putAll pairs entries).map Prod.fst = (known ++ pairs.map Prod.fst).eraseDups := by
  induction pairs generalizing known entries with
  | nil => simpa [putAll] using h
  | cons pair rest ih =>
    rw [putAll, List.foldl_cons, ← putAll, ih (keys_put h pair.1 pair.2)]
    simp

/-- Of the pairs with one key the last one counts, and without one what was there before. -/
theorem lookup_putAll (pairs entries : List (κ × α)) (key : κ) :
    (putAll pairs entries).lookup key = (pairs.reverse.lookup key).or (entries.lookup key) := by
  induction pairs using List.reverseRecOn with
  | nil => rfl
  | append_singleton pairs pair ih =>
    obtain ⟨k, value⟩ := pair
    have hlast : putAll (pairs ++ [(k, value)]) entries = put k value (putAll pairs entries) :=
      List.foldl_append
    rw [hlast, List.reverse_concat]
    by_cases hk : key = k
    · subst hk
      rw [lookup_put_self, List.lookup_cons_self, Option.some_or]
    · have hne : (key == k) = false := by simpa using hk
      rw [lookup_put_of_ne hk, ih, List.lookup_cons, hne]

end Entries

end QueryEngine
