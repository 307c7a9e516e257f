import QueryEngine.Json.Path
import QueryEngine.Language.Token
import QueryEngine.Proofs.Text.Numeral

/-!
# Printed paths

The text of a path does not say which of its steps are keys and which are indices. If all keys are
names, it can be told: a name has no slash and reads as no number, since it does not begin with a
digit or a plus sign. So such a path is read back from its text (`Path.ofText_text`), as long as its
indices fit 64 bits.
-/

namespace QueryEngine

/-- A letter or an underscore, and then letters, digits and underscores. -/
def IsName (text : String) : Prop :=
  ∃ first rest, text.toList = first :: rest ∧ Token.isNameStart first
    ∧ ∀ c ∈ rest, Token.isNamePart c

/-! ## Names and numerals -/

namespace Token

/-- No character of a name separates pieces. -/
theorem ne_slash_of_isNamePart {c : Char} (h : isNamePart c) : c ≠ '/' := by
  rintro rfl
  cases h

/-- No name begins like a number. -/
theorem not_isDigit_of_isNameStart {c : Char} (h : isNameStart c) : ¬ c.isDigit := by
  have between {low high : UInt32} (h : (low ≤ c.val && c.val ≤ high) = true) :
      low.toNat ≤ c.toNat ∧ c.toNat ≤ high.toNat := by
    simpa [UInt32.le_iff_toNat_le] using h
  intro hd
  have hdigit : 48 ≤ c.toNat ∧ c.toNat ≤ 57 := between hd
  rcases Bool.or_eq_true_iff.1 h with h | h
  · rcases Bool.or_eq_true_iff.1 h with hupper | hlower
    · have : 65 ≤ c.toNat ∧ c.toNat ≤ 90 := of_decide_eq_true hupper
      omega
    · have : 97 ≤ c.toNat ∧ c.toNat ≤ 122 := between hlower
      omega
  · cases beq_iff_eq.1 h
    cases hd

end Token

namespace IsName

variable {text : String} (h : IsName text)
include h

/-- A name has a first character. -/
theorem ne_nil : text.toList ≠ [] := by
  obtain ⟨first, rest, htext, -⟩ := h
  simp [htext]

/-- No name has a separator in it. -/
theorem slash_not_mem : '/' ∉ text.toList := by
  obtain ⟨first, rest, htext, hfirst, hrest⟩ := h
  rw [htext]
  intro hm
  rcases List.mem_cons.1 hm with rfl | hm
  · cases hfirst
  · exact Token.ne_slash_of_isNamePart (hrest _ hm) rfl

/-- A name reads as no number. -/
theorem readUnsigned? : Numeral.readUnsigned? text.toList = none := by
  obtain ⟨first, rest, htext, hfirst, -⟩ := h
  rw [htext, Option.eq_none_iff_forall_ne_some]
  intro n hn
  rcases (Numeral.readUnsigned?_eq_some_iff.1 hn).1 with hdigits | ⟨digits, hplus, -⟩
  · exact Token.not_isDigit_of_isNameStart hfirst (hdigits.isDigit first (List.mem_cons_self ..))
  · cases hplus
    cases hfirst

end IsName

/-! ## Pieces -/

namespace Path

/-- A separator ends the piece before it, which may be empty. -/
theorem pieces_slash (rest : List Char) : pieces ('/' :: rest) = [] :: pieces rest := by
  rw [pieces, if_pos rfl]

/-- What has no slash stands at the front of the first piece. -/
theorem pieces_append {piece : List Char} (h : '/' ∉ piece) {rest first : List Char}
    {others : List (List Char)} (hr : pieces rest = first :: others) :
    pieces (piece ++ rest) = (piece ++ first) :: others := by
  induction piece with
  | nil => exact hr
  | cons c piece ih =>
    obtain ⟨hc, hpiece⟩ := not_or.1 (mt List.mem_cons.2 h)
    rw [List.cons_append, pieces, if_neg (Ne.symm hc), ih hpiece]
    rfl

/-- The pieces of a printed path behind the first of its steps. -/
theorem pieces_printed {piece : List Char} (h : '/' ∉ piece) {path : Path}
    (hp : ∀ segment ∈ path, '/' ∉ segment.text.toList) :
    pieces (piece ++ path.flatMap fun segment => '/' :: segment.text.toList)
      = piece :: path.map fun segment => segment.text.toList := by
  induction path generalizing piece with
  | nil => simpa using pieces_append h (show pieces [] = [] :: [] from rfl)
  | cons segment path ih =>
    obtain ⟨hs, hp⟩ := List.forall_mem_cons.1 hp
    have hrest := (pieces_slash _).trans (congrArg (List.cons []) (ih hs hp))
    rw [List.flatMap_cons, List.cons_append, pieces_append h hrest, List.append_nil, List.map_cons]

/-- A printed path has a separator before each of its segments. -/
theorem toList_text (path : Path) :
    path.text.toList = path.flatMap fun segment => '/' :: segment.text.toList := by
  rw [text, String.toList_join, List.flatMap_map]
  simp

end Path

/-! ## Reading back -/

/-- A step that can be read back from its text: an index that fits 64 bits, or a name. -/
def Segment.IsPlain : Segment → Prop
  | .index i => i < Width.values 64
  | .key name => IsName name

namespace Segment.IsPlain

variable {segment : Segment} (h : segment.IsPlain)
include h

/-- No printed segment has a separator in it. -/
theorem slash_not_mem : '/' ∉ segment.text.toList := by
  cases segment with
  | index i =>
    rw [Segment.text, String.toList_ofList]
    intro hm
    cases (Numeral.isDigits_decimal i).isDigit '/' hm
  | key name => exact IsName.slash_not_mem h

/-- No printed segment is empty. -/
theorem ne_nil : segment.text.toList ≠ [] := by
  cases segment with
  | index i =>
    rw [Segment.text, String.toList_ofList]
    exact (Numeral.isDigits_decimal i).ne_nil
  | key name => exact IsName.ne_nil h

/-- A printed segment is read as what it was: no name reads as a number. -/
theorem ofChars : Segment.ofChars segment.text.toList = segment := by
  cases segment with
  | index i =>
    rw [Segment.text, String.toList_ofList, Segment.ofChars, Numeral.readUnsigned?_decimal h]
  | key name =>
    rw [Segment.text, Segment.ofChars, IsName.readUnsigned? h]
    exact congrArg Segment.key String.ofList_toList

end Segment.IsPlain

namespace Path

variable {path other : Path}

/-- A path of steps that can be read back is read back from its text. -/
theorem ofText_text (h : ∀ segment ∈ path, segment.IsPlain) : ofText path.text = path := by
  have hpieces : pieces path.text.toList = [] :: path.map fun segment => segment.text.toList := by
    rw [toList_text]
    exact pieces_printed List.not_mem_nil fun segment hs => (h segment hs).slash_not_mem
  have hfilter : (path.map fun segment => segment.text.toList).filter (! ·.isEmpty)
      = path.map fun segment => segment.text.toList := by
    refine List.filter_eq_self.2 fun piece hp => ?_
    obtain ⟨segment, hs, rfl⟩ := List.mem_map.1 hp
    simpa using (h segment hs).ne_nil
  rw [ofText, hpieces, List.filter_cons_of_neg (by simp), hfilter, List.map_map]
  exact (List.map_congr_left fun segment hs => (h segment hs).ofChars).trans (List.map_id _)

/-- A key that is no name may be taken for an index. -/
example : ofText (text [.key "posts", .key "07"]) = [.key "posts", .index 7] := by decide +kernel

/-- Distinct paths of such steps have distinct texts. -/
theorem eq_of_text_eq (h : ∀ segment ∈ path, segment.IsPlain)
    (h' : ∀ segment ∈ other, segment.IsPlain) (ht : path.text = other.text) : path = other := by
  rw [← ofText_text h, ht, ofText_text h']

end Path

end QueryEngine
