import Mathlib.Data.Set.Function
import QueryEngine.Connection.Cursor
import QueryEngine.Proofs.Text.Base64
import QueryEngine.Proofs.Text.Numeral

/-!
# Reading cursors back

A text is the cursor of a position if and only if it is the Base64 text of the marker and a numeral
of that position (`Cursor.decode?_eq_some_iff`). What `Cursor.encode` writes is such a text, so
every position that fits 64 bits is read back; any other text is refused
(`Cursor.decode_roundTrips`).
-/

namespace QueryEngine.Cursor

/-- The marker is dropped from what begins with it. -/
theorem dropMarker?_append (start rest : List Char) :
    dropMarker? start (start ++ rest) = some rest := by
  induction start with
  | nil => cases rest <;> rfl
  | cons c start ih => rw [List.cons_append, dropMarker?, if_pos rfl, ih]

/-- What is left after the marker is dropped is all that came after it. -/
theorem dropMarker?_eq_some_iff {start cs rest : List Char} :
    dropMarker? start cs = some rest ↔ cs = start ++ rest := by
  refine ⟨fun h => ?_, fun h => h ▸ dropMarker?_append start rest⟩
  induction start generalizing cs with
  | nil => simpa [dropMarker?] using h
  | cons c start ih =>
    cases cs with
    | nil => cases h
    | cons first others =>
      rw [dropMarker?] at h
      split at h
      case isTrue hsame => rw [List.cons_append, hsame, ih h]
      case isFalse => cases h

/-- The Base64 text of the marker and a numeral. -/
def ofNumeral (numeral : List Char) : String :=
  String.ofList (Base64.encode (Utf8.octets (String.ofList (marker ++ numeral))))

/-- A text is read as a position just if it is the Base64 text of the marker and a numeral of the
position, which fits 64 bits. -/
theorem decode?_eq_some_iff {cursor : String} {position : Nat} :
    decode? cursor = some position ↔ position < Width.values 64
      ∧ ∃ numeral, Numeral.IsNumeral numeral position ∧ cursor = ofNumeral numeral := by
  constructor
  · intro h
    obtain ⟨octets, hoctets, h⟩ := Option.bind_eq_some_iff.1 h
    obtain ⟨text, htext, h⟩ := Option.bind_eq_some_iff.1 h
    obtain ⟨numeral, hmarker, hread⟩ := Option.bind_eq_some_iff.1 h
    obtain ⟨hnumeral, hlt⟩ := Numeral.readUnsigned?_eq_some_iff.1 hread
    obtain ⟨hbytes, hcursor⟩ := Base64.decode_eq_some_iff.1 hoctets
    refine ⟨hlt, numeral, hnumeral, ?_⟩
    rw [ofNumeral, ← dropMarker?_eq_some_iff.1 hmarker, String.ofList_toList,
      Utf8.octets_of_text? htext hbytes, hcursor, String.ofList_toList]
  · rintro ⟨hlt, numeral, hnumeral, rfl⟩
    simp only [decode?, ofNumeral, String.toList_ofList,
      Base64.decode_encode Utf8.lt_of_mem_octets, Utf8.text?_octets, dropMarker?_append,
      Option.bind_eq_bind, Option.bind_some]
    exact Numeral.readUnsigned?_eq_some_iff.2 ⟨hnumeral, hlt⟩

/-- The cursor of a position of 64 bits is read as that position. -/
theorem decode?_encode {position : Nat} (h : position < Width.values 64) :
    decode? (encode position) = some position :=
  decode?_eq_some_iff.2 ⟨h, _, .inl (Numeral.isDigits_decimal position), rfl⟩

/-- A cursor is accepted with the position that its text stands for. -/
theorem decode_eq_ok_iff {cursor : String} {position : Nat} :
    decode cursor = .ok position ↔ decode? cursor = some position := by
  rw [decode]
  cases decode? cursor <;> simp

/-- A cursor that was made for a position of 64 bits is accepted with it. -/
theorem decode_encode {position : Nat} (h : position < Width.values 64) :
    decode (encode position) = .ok position :=
  decode_eq_ok_iff.2 (decode?_encode h)

/-- Cursors are read back, and nothing else is read. The cursor of a position of 64 bits is read as
that position, so two positions have two cursors. A text is read as a position just if it is the
Base64 text of the marker `cursor:` and decimal digits of the position, one at least, which zeros
may lead and which may stand behind a plus sign; the position then fits 64 bits. Any other text is
an invalid value. -/
theorem decode_roundTrips :
    (∀ position < Width.values 64, decode (encode position) = .ok position)
      ∧ Set.InjOn encode {position | position < Width.values 64}
      ∧ ∀ cursor : String,
        (∀ position, decode cursor = .ok position ↔ position < Width.values 64
          ∧ ∃ numeral, Numeral.IsNumeral numeral position
            ∧ cursor = String.ofList (Base64.encode (Utf8.octets
              ("cursor:" ++ String.ofList numeral))))
        ∧ ((∀ position, decode cursor ≠ .ok position) →
          ∃ error, decode cursor = .error error
            ∧ error.message = "invalid cursor '" ++ cursor ++ "'"
            ∧ error.code? = some FieldError.Code.invalidValue) := by
  refine ⟨fun position h => decode_encode h, ?_, fun cursor => ⟨fun position => ?_, ?_⟩⟩
  · intro position h other h' hsame
    have hread := decode?_encode h
    rw [hsame, decode?_encode h'] at hread
    exact (Option.some.inj hread).symm
  · have htext : ∀ numeral, "cursor:" ++ String.ofList numeral
        = String.ofList (marker ++ numeral) := fun numeral => by
      show _ = String.ofList ("cursor:".toList ++ numeral)
      rw [String.ofList_append, String.ofList_toList]
    simp only [htext]
    exact decode_eq_ok_iff.trans decode?_eq_some_iff
  · intro hrefused
    cases hread : decode cursor with
    | ok position => exact absurd hread (hrefused position)
    | error error =>
      rw [decode] at hread
      split at hread
      · cases hread
      · cases hread
        exact ⟨_, rfl, rfl, rfl⟩

example : encode 3 = "Y3Vyc29yOjM=" := by decide +kernel

end QueryEngine.Cursor
