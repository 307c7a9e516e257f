import Mathlib.Data.Nat.Digits.Defs
import QueryEngine.Text.Numeral

/-!
# Reading numerals

A numeral is read as a number if and only if it is made of decimal digits of that number, one at
least, and the number fits 64 bits (`readUnsigned?_eq_some_iff`): zeros may lead, and a plus sign
may come first. What `decimal` writes is such a numeral, so it is read back
(`readUnsigned?_decimal`).
-/

namespace QueryEngine.Numeral

/-! ## Digits -/

/-- A digit is read as the number it stands for. -/
theorem digit?_digitChar {n : Nat} (h : n < 10) : digit? (digitChar n) = some n := by
  have all : ∀ n < 10, digit? (digitChar n) = some n := by decide
  exact all n h

/-- What is read as a digit is one of the ten. -/
theorem digit?_eq_some_iff {c : Char} {d : Nat} :
    digit? c = some d ↔ c.isDigit ∧ c.toNat - '0'.toNat = d := by
  rw [digit?]
  by_cases h : c.isDigit <;> simp [h]

/-- The number that decimal digits spell. -/
def value (digits : List Char) : Nat :=
  Nat.ofDigits 10 (digits.map fun c => c.toNat - '0'.toNat).reverse

/-- The first digit counts by how many come after it. -/
theorem value_cons (c : Char) (rest : List Char) :
    value (c :: rest) = (c.toNat - '0'.toNat) * 10 ^ rest.length + value rest := by
  rw [value, List.map_cons, List.reverse_cons, Nat.ofDigits_append, Nat.ofDigits_singleton,
    List.length_reverse, List.length_map, Nat.mul_comm, Nat.add_comm, ← value]

/-- A digit at the end shifts those before it. -/
theorem value_concat (first : List Char) (c : Char) :
    value (first ++ [c]) = value first * 10 + (c.toNat - '0'.toNat) := by
  rw [value, List.map_append, List.map_singleton, List.reverse_append, List.reverse_singleton,
    List.singleton_append, Nat.ofDigits_cons, ← value, Nat.add_comm, Nat.mul_comm]

/-- The characters are decimal digits of the number, one at least. Zeros may lead. -/
structure IsDigits (digits : List Char) (n : Nat) : Prop where
  ne_nil : digits ≠ []
  isDigit : ∀ c ∈ digits, c.isDigit
  value_eq : value digits = n

/-- The characters are decimal digits of the number, behind a plus sign or not. -/
def IsNumeral (numeral : List Char) (n : Nat) : Prop :=
  IsDigits numeral n ∨ ∃ digits, numeral = '+' :: digits ∧ IsDigits digits n

/-- One digit is a numeral of its number. -/
theorem IsDigits.singleton {n : Nat} (h : n < 10) : IsDigits [digitChar n] n := by
  obtain ⟨hdigit, hvalue⟩ := digit?_eq_some_iff.1 (digit?_digitChar h)
  refine ⟨List.cons_ne_nil _ _, List.forall_mem_singleton.2 hdigit, ?_⟩
  rw [value_cons, hvalue]
  exact Nat.mul_one n

/-- One more digit. -/
theorem IsDigits.concat {digits : List Char} {n d : Nat} (h : IsDigits digits n) (hd : d < 10) :
    IsDigits (digits ++ [digitChar d]) (n * 10 + d) := by
  obtain ⟨hdigit, hvalue⟩ := digit?_eq_some_iff.1 (digit?_digitChar hd)
  refine ⟨by simp, fun c hc => ?_, by rw [value_concat, h.value_eq, hvalue]⟩
  rcases List.mem_append.1 hc with hc | hc
  · exact h.isDigit c hc
  · rw [List.mem_singleton.1 hc]
    exact hdigit

/-- A number is written with its digits. -/
theorem isDigits_decimal (n : Nat) : IsDigits (decimal n) n := by
  induction n using decimal.induct with
  | case1 n small =>
    rw [decimal, if_pos small]
    exact .singleton small
  | case2 n large ih =>
    rw [decimal, if_neg large]
    have more := ih.concat (Nat.mod_lt n (show 0 < 10 by decide))
    rwa [Nat.div_add_mod'] at more

/-! ## Reading -/

/-- Reading goes on from a number within the bound to the one that all digits together spell. -/
theorem readDigits_eq_ok_iff {bound value n : Nat} (overflow : Fault) {digits : List Char}
    (hv : value ≤ bound) : readDigits bound overflow value digits = .ok n
      ↔ (∀ c ∈ digits, c.isDigit) ∧ value * 10 ^ digits.length + Numeral.value digits = n
        ∧ n ≤ bound := by
  induction digits generalizing value with
  | nil =>
    have hnone : Numeral.value [] = 0 := rfl
    rw [readDigits, Except.ok.injEq, hnone, List.length_nil, Nat.pow_zero, Nat.mul_one]
    constructor
    · rintro rfl
      exact ⟨nofun, rfl, hv⟩
    · exact fun h => h.2.1
  | cons c rest ih =>
    rw [readDigits, List.forall_mem_cons]
    cases hd : digit? c with
    | none =>
      have hc : ¬ c.isDigit := fun hc => by simp [digit?, hc] at hd
      simp [hc]
    | some d =>
      obtain ⟨hc, hvalue⟩ := digit?_eq_some_iff.1 hd
      have hall : value * 10 ^ (c :: rest).length + Numeral.value (c :: rest)
          = (value * 10 + d) * 10 ^ rest.length + Numeral.value rest := by
        rw [value_cons, hvalue, List.length_cons, Nat.pow_succ]
        ring
      dsimp only
      rw [hall]
      split
      · next hnext => simp [ih hnext, hc]
      · next hnext =>
        -- The digits that follow only make the number greater.
        refine ⟨nofun, fun ⟨_, hn, hle⟩ => absurd ?_ hnext⟩
        calc value * 10 + d
            ≤ (value * 10 + d) * 10 ^ rest.length := Nat.le_mul_of_pos_right _ (by positivity)
          _ ≤ n := hn ▸ Nat.le_add_right ..
          _ ≤ bound := hle

/-- Digits are read as a number up to the bound if they are a numeral of it, and only then. -/
theorem readNumber_eq_ok_iff {bound n : Nat} (overflow : Fault) {digits : List Char} :
    readNumber bound overflow digits = .ok n ↔ IsDigits digits n ∧ n ≤ bound := by
  cases digits with
  | nil => exact ⟨nofun, fun h => absurd rfl h.1.ne_nil⟩
  | cons c rest =>
    rw [readNumber, readDigits_eq_ok_iff overflow (Nat.zero_le bound), Nat.zero_mul, Nat.zero_add]
    · exact ⟨fun h => ⟨⟨List.cons_ne_nil _ _, h.1, h.2.1⟩, h.2.2⟩,
        fun h => ⟨h.1.isDigit, h.1.value_eq, h.2⟩⟩
    · exact List.cons_ne_nil _ _

/-- After a plus sign digits are read. -/
theorem readUnsigned?_plus (digits : List Char) : readUnsigned? ('+' :: digits)
    = (readNumber (Width.values 64 - 1) .tooLarge digits).toOption := by
  rw [readUnsigned?]
  cases readNumber (Width.values 64 - 1) .tooLarge digits <;> rfl

/-- Without a plus sign digits are read. -/
theorem readUnsigned?_of_ne_plus {numeral : List Char} (h : ∀ digits, numeral ≠ '+' :: digits) :
    readUnsigned? numeral
      = (readNumber (Width.values 64 - 1) .tooLarge numeral).toOption := by
  rw [readUnsigned?]
  · cases readNumber (Width.values 64 - 1) .tooLarge numeral <;> rfl
  · exact h

/-- A text is read as a number just if it is a numeral of that number, which fits 64 bits. -/
theorem readUnsigned?_eq_some_iff {numeral : List Char} {n : Nat} :
    readUnsigned? numeral = some n ↔ IsNumeral numeral n ∧ n < Width.values 64 := by
  have hbound : n < Width.values 64 ↔ n ≤ Width.values 64 - 1 :=
    Nat.lt_iff_le_pred (by decide)
  have hread : ∀ digits, (readNumber (Width.values 64 - 1) .tooLarge digits).toOption = some n
      ↔ IsDigits digits n ∧ n < Width.values 64 := by
    intro digits
    rw [hbound, ← readNumber_eq_ok_iff .tooLarge]
    cases readNumber (Width.values 64 - 1) .tooLarge digits <;> simp [Except.toOption]
  have hplus : ∀ digits, ¬ IsDigits ('+' :: digits) n := fun digits h => by
    cases h.isDigit '+' (List.mem_cons_self ..)
  by_cases hsign : ∃ digits, numeral = '+' :: digits
  · obtain ⟨digits, rfl⟩ := hsign
    rw [readUnsigned?_plus, hread]
    refine and_congr_left fun _ => ⟨fun h => .inr ⟨digits, rfl, h⟩, ?_⟩
    rintro (h | ⟨_, hsame, h⟩)
    · exact absurd h (hplus digits)
    · cases hsame
      exact h
  · rw [readUnsigned?_of_ne_plus fun digits hsame => hsign ⟨digits, hsame⟩, hread]
    refine and_congr_left fun _ => ⟨.inl, ?_⟩
    rintro (h | ⟨digits, hsame, -⟩)
    · exact h
    · exact absurd ⟨digits, hsame⟩ hsign

/-- The numeral of a number of 64 bits is read as that number. -/
theorem readUnsigned?_decimal {n : Nat} (h : n < Width.values 64) :
    readUnsigned? (decimal n) = some n :=
  readUnsigned?_eq_some_iff.2 ⟨.inl (isDigits_decimal n), h⟩

end QueryEngine.Numeral
