/-!
# Widths

The whole numbers that fit a number of bits, without a sign or with one.
-/

namespace QueryEngine.Width

/-- How many values so many bits have. -/
def values (bits : Nat) : Nat := Nat.pow 2 bits

/-- The least number with a sign of so many bits. -/
def least (bits : Nat) : Int := -(values (bits - 1) : Int)

/-- The number fits so many bits without a sign. -/
def Unsigned (bits : Nat) (n : Int) : Prop := 0 ≤ n ∧ n < values bits

/-- The number fits so many bits with a sign. -/
def Signed (bits : Nat) (n : Int) : Prop := least bits ≤ n ∧ n < values (bits - 1)

instance (bits : Nat) (n : Int) : Decidable (Unsigned bits n) :=
  inferInstanceAs (Decidable (0 ≤ n ∧ n < values bits))

instance (bits : Nat) (n : Int) : Decidable (Signed bits n) :=
  inferInstanceAs (Decidable (least bits ≤ n ∧ n < values (bits - 1)))

end QueryEngine.Width
