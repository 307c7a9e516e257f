import QueryEngine.Width

/-!
# Decimal numerals

Whole numbers in decimal. `decimal` writes one, `readUnsigned?` and `readSigned` read one within
64 or fewer bits. A sign and leading zeros are accepted, blanks and separators are not, and the
first digit that leads out of the range decides, whatever follows it.
-/

namespace QueryEngine.Numeral

/-- Why a text is no numeral of the range asked for. -/
inductive Fault where
  | empty
  | invalidDigit
  | tooLarge
  | tooSmall
deriving DecidableEq, Repr

/-- The message for a fault. -/
def Fault.message : Fault → String
  | .empty => "cannot parse integer from empty string"
  | .invalidDigit => "invalid digit found in string"
  | .tooLarge => "number too large to fit in target type"
  | .tooSmall => "number too small to fit in target type"

/-- The digit of a number below ten. -/
def digitChar (n : Nat) : Char :=
  Char.ofNat (n + 48)

/-- The value of a decimal digit. -/
def digit? (c : Char) : Option Nat :=
  if c.isDigit then some (c.toNat - 48) else none

/-- The decimal numeral of a number, without leading zeros. -/
def decimal (n : Nat) : List Char :=
  if n < 10 then [digitChar n] else decimal (n / 10) ++ [digitChar (n % 10)]

/-- Reads digits behind a number already read, up to and including `bound`. -/
def readDigits (bound : Nat) (overflow : Fault) (value : Nat) : List Char → Except Fault Nat
  | [] => .ok value
  | c :: rest =>
    match digit? c with
    | none => .error .invalidDigit
    | some d =>
      let next := value * 10 + d
      if next ≤ bound then readDigits bound overflow next rest else .error overflow

/-- Reads at least one digit. -/
def readNumber (bound : Nat) (overflow : Fault) : List Char → Except Fault Nat
  | [] => .error .invalidDigit
  | cs => readDigits bound overflow 0 cs

/-- Reads a whole number below 2 ^ 64 with an optional plus sign. -/
def readUnsigned? (cs : List Char) : Option Nat :=
  let digits := match cs with
    | '+' :: rest => rest
    | _ => cs
  match readNumber (Width.values 64 - 1) .tooLarge digits with
  | .ok n => some n
  | .error _ => none

/-- Reads a whole number of `bits` bits with an optional sign. -/
def readSigned (bits : Nat) (cs : List Char) : Except Fault Int :=
  match cs with
  | [] => .error .empty
  | '-' :: rest => (readNumber (Width.values (bits - 1)) .tooSmall rest).map fun n => -(n : Int)
  | '+' :: rest => (readNumber (Width.values (bits - 1) - 1) .tooLarge rest).map Int.ofNat
  | _ => (readNumber (Width.values (bits - 1) - 1) .tooLarge cs).map Int.ofNat

end QueryEngine.Numeral
