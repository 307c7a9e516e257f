/-!
# Ordered entries

A list of key and value pairs read as a map that remembers the order of first insertion.
`List.lookup` reads it. `put` overwrites in place or appends, so a key that was there keeps its
place (`keys_put_of_mem`), a new one goes last (`keys_put_of_not_mem`) and distinct keys stay
distinct (`nodup_keys_put`).
-/

namespace QueryEngine.Entries

variable {κ α : Type} [DecidableEq κ]

/-- Binds `key` to `value`: in place when the key is there, at the end otherwise. -/
def put (key : κ) (value : α) : List (κ × α) → List (κ × α)
  | [] => [(key, value)]
  | (k, v) :: rest => if k = key then (k, value) :: rest else (k, v) :: put key value rest

/-- Binds `key` to `value` unless the key is bound already. -/
def putIfAbsent (key : κ) (value : α) (entries : List (κ × α)) : List (κ × α) :=
  if (entries.lookup key).isSome then entries else entries ++ [(key, value)]

/-- Puts every pair of `pairs` into `entries`, from left to right. -/
def putAll (pairs entries : List (κ × α)) : List (κ × α) :=
  pairs.foldl (fun acc pair => put pair.1 pair.2 acc) entries

/-- The map that a sequence of pairs describes: of two pairs with one key the later value wins, at
the place of the earlier one. -/
def ofList (pairs : List (κ × α)) : List (κ × α) :=
  putAll pairs []

/-- A key that was put is bound to its value. -/
theorem lookup_put_self (key : κ) (value : α) (entries : List (κ × α)) :
    (put key value entries).lookup key = some value := by
  induction entries with
  | nil => simp [put]
  | cons entry rest ih =>
    obtain ⟨k, v⟩ := entry
    by_cases h : k = key
    · simp [put, h]
    · have h' : (key == k) = false := by simpa using fun e => h e.symm
      simp [put, h, List.lookup_cons, h', ih]

/-- Putting one key leaves every other key as it is bound. -/
theorem lookup_put_of_ne {key other : κ} (h : other ≠ key) (value : α) (entries : List (κ × α)) :
    (put key value entries).lookup other = entries.lookup other := by
  induction entries with
  | nil => simp [put, h]
  | cons entry rest ih =>
    obtain ⟨k, v⟩ := entry
    by_cases hk : k = key
    · have h' : (other == k) = false := by simpa [hk] using h
      simp [put, hk, List.lookup_cons, hk ▸ h']
    · simp [put, hk, List.lookup_cons, ih]

/-- A key that is there keeps its place when it is put again. -/
theorem keys_put_of_mem {key : κ} {entries : List (κ × α)} (h : key ∈ entries.map Prod.fst)
    (value : α) : (put key value entries).map Prod.fst = entries.map Prod.fst := by
  induction entries with
  | nil => simp at h
  | cons entry rest ih =>
    obtain ⟨k, v⟩ := entry
    by_cases hk : k = key
    · simp [put, hk]
    · have : key ∈ rest.map Prod.fst := by
        rcases List.mem_cons.mp h with h | h
        · exact absurd h.symm hk
        · exact h
      simp [put, hk, ih this]

/-- A key that is not there goes last when it is put. -/
theorem keys_put_of_not_mem {key : κ} {entries : List (κ × α)} (h : key ∉ entries.map Prod.fst)
    (value : α) : (put key value entries).map Prod.fst = entries.map Prod.fst ++ [key] := by
  induction entries with
  | nil => simp [put]
  | cons entry rest ih =>
    obtain ⟨k, v⟩ := entry
    have hk : k ≠ key := fun e => h (by simp [e])
    have : key ∉ rest.map Prod.fst := fun m => h (List.mem_cons_of_mem _ m)
    simp [put, hk, ih this]

/-- Putting a key keeps the keys distinct, be it there or not. -/
theorem nodup_keys_put {key : κ} {entries : List (κ × α)} (h : (entries.map Prod.fst).Nodup)
    (value : α) : ((put key value entries).map Prod.fst).Nodup := by
  by_cases hk : key ∈ entries.map Prod.fst
  · rwa [keys_put_of_mem hk]
  · rw [keys_put_of_not_mem hk, List.nodup_append]
    refine ⟨h, by simp, ?_⟩
    intro a ha b hb e
    rw [List.mem_singleton] at hb
    exact hk (hb ▸ e ▸ ha)

end QueryEngine.Entries
