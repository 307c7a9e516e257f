/-!
# UTF-8

A text as octets. `text?` reads back what `octets` writes, and refuses octets that are no UTF-8.
-/

namespace QueryEngine.Utf8

/-- The octets of a text. -/
def octets (text : String) : List Nat :=
  text.toUTF8.data.toList.map UInt8.toNat

/-- The text that octets stand for. -/
def text? (octets : List Nat) : Option String :=
  String.fromUTF8? ⟨(octets.map UInt8.ofNat).toArray⟩

/-- A text is read back from its octets, and no text is lost on the way. -/
theorem text?_octets (text : String) : text? (octets text) = some text := by
  have same : ((octets text).map UInt8.ofNat).toArray = text.toUTF8.data := by
    simp [octets, Function.comp_def]
  rw [text?, same, String.fromUTF8?]
  exact dif_pos text.isValidUTF8

/-- Octets that are read as a text are those that the text is written with: no text has two
spellings. -/
theorem octets_of_text? {octets : List Nat} {text : String} (h : text? octets = some text)
    (hb : ∀ octet ∈ octets, octet < 256) : Utf8.octets text = octets := by
  rw [text?, String.fromUTF8?] at h
  split at h
  · cases h
    show (octets.map UInt8.ofNat).map UInt8.toNat = octets
    rw [List.map_map]
    exact (List.map_congr_left fun octet ho => UInt8.toNat_ofNat_of_lt (hb octet ho)).trans
      (List.map_id octets)
  · cases h

/-- What a text is made of are octets. -/
theorem lt_of_mem_octets {text : String} : ∀ octet ∈ octets text, octet < 256 :=
  List.forall_mem_map.2 fun octet _ => octet.toNat_lt

end QueryEngine.Utf8
