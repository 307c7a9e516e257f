import QueryEngine.Text.Base64

/-!
# Reading Base64

Octets have one text each, and no other text is accepted: `decode` reads octets from a text if and
only if the text is what `encode` writes for them (`decode_eq_some_iff`), which takes in the padding
and the bits that are left over in the last letter.
-/

namespace QueryEngine.Base64

/-! ## Letters -/

/-- A letter of the alphabet is read as the number it stands for. -/
theorem sextet?_letter {n : Nat} (h : n < 64) : sextet? (letter n) = some n := by
  have all : ∀ n < 64, sextet? (letter n) = some n := by decide
  exact all n h

/-- No letter is the padding. -/
theorem letter_ne_padding {n : Nat} (h : n < 64) : letter n ≠ '=' := by
  have all : ∀ n < 64, letter n ≠ '=' := by decide
  exact all n h

/-- Each number below sixty-four has one letter. -/
theorem eq_letter_of_sextet? {c : Char} {n : Nat} (h : sextet? c = some n) :
    n < 64 ∧ letter n = c := by
  have hchar : ∀ m, m = c.toNat → Char.ofNat m = c := fun m hm => hm ▸ c.ofNat_toNat
  rw [sextet?] at h
  split at h
  case isTrue hupper =>
    cases h
    have hlow : 65 ≤ c.toNat := hupper.1
    have hhigh : c.toNat ≤ 90 := hupper.2
    refine ⟨by omega, ?_⟩
    rw [letter, if_pos (by omega)]
    exact hchar _ (by omega)
  split at h
  case isTrue hlower =>
    cases h
    have hlow : 97 ≤ c.toNat := hlower.1
    have hhigh : c.toNat ≤ 122 := hlower.2
    refine ⟨by omega, ?_⟩
    rw [letter, if_neg (by omega), if_pos (by omega)]
    exact hchar _ (by omega)
  split at h
  case isTrue hdigit =>
    cases h
    have hlow : 48 ≤ c.toNat := hdigit.1
    have hhigh : c.toNat ≤ 57 := hdigit.2
    refine ⟨by omega, ?_⟩
    rw [letter, if_neg (by omega), if_neg (by omega), if_pos (by omega)]
    exact hchar _ (by omega)
  split at h
  case isTrue hplus =>
    cases h
    exact ⟨by decide, hplus.symm⟩
  split at h
  case isTrue hslash =>
    cases h
    exact ⟨by decide, hslash.symm⟩
  case isFalse => cases h

/-- What is read from a letter on is read from the number that the letter stands for. -/
theorem exists_of_bind_sextet? {α : Type} {c : Char} {next : Nat → Option α} {result : α}
    (h : (sextet? c).bind next = some result) :
    ∃ n < 64, c = letter n ∧ next n = some result := by
  obtain ⟨n, hn, hnext⟩ := Option.bind_eq_some_iff.1 h
  obtain ⟨hlt, hletter⟩ := eq_letter_of_sextet? hn
  exact ⟨n, hlt, hletter.symm, hnext⟩

/-! ## Octets -/

/-- A group of four letters is read as three octets, whatever follows it. -/
theorem decode_letters {p q r s : Nat} (hp : p < 64) (hq : q < 64) (hr : r < 64) (hs : s < 64)
    (rest : List Char) :
    decode (letter p :: letter q :: letter r :: letter s :: rest)
      = (decode rest).map fun octets =>
        [p * 4 + q / 16, q % 16 * 16 + r / 4, r % 4 * 64 + s] ++ octets := by
  have pad := letter_ne_padding hs
  rw [decode]
  · simp only [sextet?_letter hp, sextet?_letter hq, sextet?_letter hr, sextet?_letter hs,
      Option.bind_eq_bind, Option.bind_some]
    cases decode rest <;> rfl
  · intro _ h _
    exact pad h
  · intro h _
    exact pad h

/-- Octets are read back from their letters. -/
theorem decode_encode {octets : List Nat} (h : ∀ octet ∈ octets, octet < 256) :
    decode (encode octets) = some octets := by
  induction octets using encode.induct with
  | case1 a b c rest ih =>
    have ha : a < 256 := h a (by simp)
    have hb : b < 256 := h b (by simp)
    have hc : c < 256 := h c (by simp)
    have tail := ih fun octet mem => h octet (by simp [mem])
    rw [encode, decode_letters (by omega) (by omega) (by omega) (by omega), tail]
    have first : a / 4 * 4 + (a % 4 * 16 + b / 16) / 16 = a := by omega
    have second : (a % 4 * 16 + b / 16) % 16 * 16 + (b % 16 * 4 + c / 64) / 4 = b := by omega
    have third : (b % 16 * 4 + c / 64) % 4 * 64 + c % 64 = c := by omega
    rw [first, second, third]
    rfl
  | case2 a b =>
    have ha : a < 256 := h a (by simp)
    have hb : b < 256 := h b (by simp)
    have first : a / 4 * 4 + (a % 4 * 16 + b / 16) / 16 = a := by omega
    have second : (a % 4 * 16 + b / 16) % 16 * 16 + b % 16 * 4 / 4 = b := by omega
    rw [encode, decode]
    · simp only [sextet?_letter (show a / 4 < 64 by omega),
        sextet?_letter (show a % 4 * 16 + b / 16 < 64 by omega),
        sextet?_letter (show b % 16 * 4 < 64 by omega), Option.bind_eq_bind, Option.bind_some,
        first, second, if_pos (show b % 16 * 4 % 4 = 0 by omega)]
      rfl
    · exact letter_ne_padding (by omega)
  | case3 a =>
    have ha : a < 256 := h a (by simp)
    have whole : a / 4 * 4 + a % 4 * 16 / 16 = a := by omega
    rw [encode, decode]
    simp only [sextet?_letter (show a / 4 < 64 by omega),
      sextet?_letter (show a % 4 * 16 < 64 by omega), Option.bind_eq_bind, Option.bind_some, whole,
      if_pos (show a % 4 * 16 % 16 = 0 by omega)]
    rfl
  | case4 => rfl

/-- What is read is written as the text that was read. -/
theorem encode_of_decode {text : List Char} {octets : List Nat} (h : decode text = some octets) :
    (∀ octet ∈ octets, octet < 256) ∧ encode octets = text := by
  induction text using decode.induct generalizing octets with
  | case1 =>
    cases h
    exact ⟨nofun, rfl⟩
  | case2 p q =>
    rw [decode] at h
    obtain ⟨k, hk, rfl, hsecond⟩ := exists_of_bind_sextet? h
    obtain ⟨l, hl, rfl, hlast⟩ := exists_of_bind_sextet? hsecond
    split at hlast
    case isFalse => cases hlast
    case isTrue hleft =>
      cases hlast
      have first : (k * 4 + l / 16) / 4 = k := by omega
      have second : (k * 4 + l / 16) % 4 * 16 = l := by omega
      refine ⟨List.forall_mem_singleton.2 (by omega), ?_⟩
      rw [encode, first, second]
  | case3 p q r hpad =>
    rw [decode] at h
    · obtain ⟨k, hk, hread⟩ := Option.bind_eq_some_iff.1 h
      obtain ⟨l, hl, hread'⟩ := Option.bind_eq_some_iff.1 hread
      obtain ⟨m, hm, hlast⟩ := Option.bind_eq_some_iff.1 hread'
      obtain ⟨hk, rfl⟩ := eq_letter_of_sextet? hk
      obtain ⟨hl, rfl⟩ := eq_letter_of_sextet? hl
      obtain ⟨hm, rfl⟩ := eq_letter_of_sextet? hm
      split at hlast
      case isFalse => cases hlast
      case isTrue hleft =>
        cases hlast
        have first : (k * 4 + l / 16) / 4 = k := by omega
        have second : (k * 4 + l / 16) % 4 * 16 + (l % 16 * 16 + m / 4) / 16 = l := by omega
        have third : (l % 16 * 16 + m / 4) % 16 * 4 = m := by omega
        refine ⟨List.forall_mem_cons.2 ⟨by omega, List.forall_mem_singleton.2 (by omega)⟩, ?_⟩
        rw [encode, first, second, third]
    · exact hpad
  | case4 p q r s rest hpads hpad ih =>
    rw [decode] at h
    · obtain ⟨k, hk, hread⟩ := Option.bind_eq_some_iff.1 h
      obtain ⟨l, hl, hread'⟩ := Option.bind_eq_some_iff.1 hread
      obtain ⟨m, hm, hread''⟩ := Option.bind_eq_some_iff.1 hread'
      obtain ⟨n, hn, hrest⟩ := Option.bind_eq_some_iff.1 hread''
      obtain ⟨others, hothers, hlast⟩ := Option.bind_eq_some_iff.1 hrest
      obtain ⟨hk, rfl⟩ := eq_letter_of_sextet? hk
      obtain ⟨hl, rfl⟩ := eq_letter_of_sextet? hl
      obtain ⟨hm, rfl⟩ := eq_letter_of_sextet? hm
      obtain ⟨hn, rfl⟩ := eq_letter_of_sextet? hn
      obtain ⟨hb, rfl⟩ := ih hothers
      cases hlast
      have first : (k * 4 + l / 16) / 4 = k := by omega
      have second : (k * 4 + l / 16) % 4 * 16 + (l % 16 * 16 + m / 4) / 16 = l := by omega
      have third : (l % 16 * 16 + m / 4) % 16 * 4 + (m % 4 * 64 + n) / 64 = m := by omega
      have fourth : (m % 4 * 64 + n) % 64 = n := by omega
      rw [List.cons_append, List.cons_append, List.cons_append, List.nil_append, encode, first,
        second, third, fourth]
      refine ⟨?_, rfl⟩
      simp only [List.forall_mem_cons]
      exact ⟨by omega, by omega, by omega, hb⟩
    · exact hpads
    · exact hpad
  | case5 text hnil htwo hone hgroup =>
    rw [decode] at h
    · cases h
    · exact hnil
    · exact htwo
    · exact hone
    · exact hgroup

/-- Octets are read from the text that is written for them, and from no other. -/
theorem decode_eq_some_iff {text : List Char} {octets : List Nat} :
    decode text = some octets ↔ (∀ octet ∈ octets, octet < 256) ∧ encode octets = text :=
  ⟨encode_of_decode, fun ⟨hb, he⟩ => he ▸ decode_encode hb⟩

end QueryEngine.Base64
