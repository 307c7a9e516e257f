import QueryEngine.Proofs.Execution.Growth

/-!
# Writes to a slot

All that an execution does to its data is to write slots of it. A write takes place exactly where
the slot can be read (`State.isSome_write?`), and then it exchanges what is within the slot and
nothing else: around it objects keep their keys and arrays their lengths (`Json.exists_at?_fill`).
-/

namespace QueryEngine

/-- Outside a slot that is written every value looks as before. -/
theorem Json.exists_at?_fill {path slot : Path} (h : ¬ path <+: slot) {data part : Json}
    (hp : data.at? slot = some part) (value : Json) :
    ∃ other, (data.fill path value).at? slot = some other ∧ other.top = part.top := by
  by_cases habove : slot <+: path
  · obtain ⟨rest, rfl⟩ := habove
    have hrest : rest ≠ [] := by
      rintro rfl
      exact h (by simp)
    exact ⟨part.fill rest value, by rw [at?_fill_above, hp, Option.map_some],
      top_fill hrest value⟩
  · exact ⟨part, by rw [at?_fill_of_apart ⟨h, habove⟩, hp], rfl⟩

namespace Execution.State

variable {W O C T : Type} {state written : State W O C T} {path : Path} {value : Json}

/-- A slot that can be read can be written. -/
theorem write?_eq_some (h : (state.data.at? path).isSome) (value : Json) :
    state.write? path value = some { state with data := state.data.fill path value } := by
  rw [write?, Json.setAt?_eq_some h, Option.map_some]

/-- A slot that cannot be read cannot be written either. -/
theorem isSome_write? (state : State W O C T) (path : Path) (value : Json) :
    (state.write? path value).isSome = (state.data.at? path).isSome := by
  rw [write?, Option.isSome_map, Json.isSome_setAt?]

/-- A write that goes well fills a slot that exists and changes nothing else. -/
theorem eq_of_write? (h : state.write? path value = some written) :
    (state.data.at? path).isSome ∧
      written = { state with data := state.data.fill path value } := by
  have hslot : (state.data.at? path).isSome := by rw [← isSome_write? state path value, h]; rfl
  rw [write?_eq_some hslot] at h
  exact ⟨hslot, (Option.some.inj h).symm⟩

/-- Of two writes to one slot the later one stays. -/
theorem write?_write? (h : state.write? path value = some written) (later : Json) :
    written.write? path later = state.write? path later := by
  obtain ⟨hslot, rfl⟩ := eq_of_write? h
  rw [write?_eq_some hslot, write?_eq_some (by rw [Json.at?_fill_self hslot]; rfl),
    Json.fill_fill_self hslot]

/-- A write to a slot takes place exactly if the slot can be read, and changes nothing otherwise.
Writing what the slot holds changes nothing either. After a write the data has the value with all
its parts in the slot, apart from the slot it is the data that was there, and around the slot
objects have the keys that they had, in their order, and arrays the length that they had. Of two
writes to one slot the later one stays. -/
theorem write_lawful (state : State W O C T) (path : Path) (value : Json) :
    (state.write? path value).isSome = (state.data.at? path).isSome ∧
    (state.write? path value = none → state.write path value = state) ∧
    (state.data.at? path = some value → state.write? path value = some state) ∧
    ∀ written, state.write? path value = some written →
      state.write path value = written ∧
      written = { state with data := written.data } ∧
      (∀ rest, written.data.at? (path ++ rest) = value.at? rest) ∧
      (∀ slot, Path.Apart path slot → written.data.at? slot = state.data.at? slot) ∧
      (∀ slot fields, ¬ path <+: slot → state.data.at? slot = some (.object fields) →
        ∃ others, written.data.at? slot = some (.object others) ∧
          others.map Prod.fst = fields.map Prod.fst) ∧
      (∀ slot items, ¬ path <+: slot → state.data.at? slot = some (.array items) →
        ∃ others, written.data.at? slot = some (.array others) ∧
          others.length = items.length) ∧
      (∀ later, written.write? path later = state.write? path later) := by
  refine ⟨isSome_write? state path value, fun h => by rw [write, h, Option.getD_none], fun h => ?_,
    fun written h => ⟨by rw [write, h, Option.getD_some], ?_, ?_, ?_, ?_, ?_, write?_write? h⟩⟩
  · rw [write?_eq_some (by rw [h]; rfl), Json.fill_self h]
  all_goals obtain ⟨hslot, rfl⟩ := eq_of_write? h
  · rfl
  · exact Json.at?_fill_append hslot value
  · exact fun slot hs => Json.at?_fill_of_apart hs state.data value
  · intro slot fields hs hf
    obtain ⟨other, ho, htop⟩ := Json.exists_at?_fill hs hf value
    obtain ⟨others, rfl, hkeys⟩ := Json.top_eq_object htop
    exact ⟨others, ho, hkeys⟩
  · intro slot items hs hi
    obtain ⟨other, ho, htop⟩ := Json.exists_at?_fill hs hi value
    obtain ⟨others, rfl, hlength⟩ := Json.top_eq_array htop
    exact ⟨others, ho, hlength⟩

end Execution.State

end QueryEngine
