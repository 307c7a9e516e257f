import QueryEngine.Text.Numeral

/-!
# Doubles in decimal

Reading a decimal as the nearest IEEE double and writing a double with the fewest digits that read
back. `shortest` works on the exact value `mantissa * 2 ^ exponent`: it takes the interval of the
reals that round to the double, ends included iff the mantissa is even, and looks for the coarsest
decimal grid with a point in it. A `Layout` says which magnitudes are written without an exponent,
which of two decimals as near is taken, and how an exponent is written.
-/

namespace QueryEngine.Double

/-- A decimal as written: sign, digits and power of ten. -/
structure Literal where
  negative : Bool
  digits : Nat
  exponent : Int

/-- Whether the bits of a double have their sign set. -/
def isNegative (bits : UInt64) : Bool :=
  bits >>> 63 == 1

/-- Whether the bits are those of a finite double. -/
def isFinite (bits : UInt64) : Bool :=
  (bits >>> 52) &&& 0x7ff != 0x7ff

/-- The bits of the double nearest to a decimal; beyond the range of doubles those of infinity. -/
def Literal.toBits (literal : Literal) : UInt64 :=
  let magnitude : Int := (Numeral.decimal literal.digits).length + literal.exponent
  let positive : Float :=
    if literal.digits = 0 || magnitude < -400 then 0.0
    else if 400 < magnitude then Float.ofBits 0x7ff0000000000000
    else Float.ofScientific literal.digits (literal.exponent < 0) literal.exponent.natAbs
  if literal.negative then positive.toBits ||| 0x8000000000000000 else positive.toBits

/-- A finite double as `mantissa * 2 ^ exponent`, its sign apart, and whether the double below it
is only half as far away as the one above. -/
structure Exact where
  mantissa : Nat
  exponent : Int
  narrowBelow : Bool

/-- The exact value of a finite double. -/
def exact (bits : UInt64) : Exact :=
  let fraction := (bits &&& 0x000fffffffffffff).toNat
  let scale := ((bits >>> 52) &&& 0x7ff).toNat
  if scale = 0 then ⟨fraction, -1074, false⟩
  else ⟨fraction + Nat.pow 2 52, (scale : Int) - 1075, fraction = 0 ∧ 1 < scale⟩

/-- The decimal digits of a positive number and the power of ten of the place before the first
digit: the number is `0.digits * 10 ^ point`. -/
structure Digits where
  digits : List Char
  point : Int

/-- The number of digits before the decimal point of `num / den`; zero or less counts the zeros
right behind the point. -/
def pointOf (num den : Nat) : Int :=
  if den ≤ num then (Numeral.decimal (num / den)).length
  else go 400 num 0
where
  /-- Multiplies by ten until the number reaches one. -/
  go : Nat → Nat → Int → Int
    | 0, _, point => point
    | fuel + 1, n, point => if den ≤ n * 10 then point else go fuel (n * 10) (point - 1)

/-- Which of two decimals that are as near to a double is taken. -/
inductive Tie where
  /-- The one whose last digit is even. -/
  | toEven
  /-- The one farther from zero. -/
  | away
deriving DecidableEq

/-- The multiple of the place value `10 ^ place` inside the interval from `low` to `high` that is
nearest to `num`, if there is one. All three are over `den`. -/
def nearestOnGrid (tie : Tie) (low num high den : Nat) (closed : Bool) (place : Int) :
    Option Nat :=
  let (unit, scale) :=
    if 0 ≤ place then (den * Nat.pow 10 place.toNat, 1) else (den, Nat.pow 10 (-place).toNat)
  let below := num * scale / unit
  let inside (d : Nat) : Bool :=
    if closed then low * scale ≤ d * unit && d * unit ≤ high * scale
    else low * scale < d * unit && d * unit < high * scale
  let above := below + 1
  let toBelow := num * scale - below * unit
  let toAbove := above * unit - num * scale
  let nearBelow := toBelow < toAbove || (toBelow == toAbove && tie = .toEven && below % 2 == 0)
  match inside below, inside above with
  | true, true => some (if nearBelow then below else above)
  | true, false => some below
  | false, true => some above
  | false, false => none

/-- Drops the zeros at the end of a list of digits. -/
def trimZeros (digits : List Char) : List Char :=
  (digits.reverse.dropWhile (· == '0')).reverse

/-- The fewest digits that read back as the double, and of these the nearest to it. -/
def shortest (tie : Tie) (bits : UInt64) : Digits :=
  let value := exact bits
  let shift : Nat := (value.exponent - 2).toNat
  let den : Nat := Nat.pow 2 (2 - value.exponent).toNat
  let num := 4 * value.mantissa * Nat.pow 2 shift
  let low := (4 * value.mantissa - if value.narrowBelow then 1 else 2) * Nat.pow 2 shift
  let high := (4 * value.mantissa + 2) * Nat.pow 2 shift
  let point := pointOf num den
  let closed := value.mantissa % 2 == 0
  let search (count : Nat) : Option Digits :=
    (nearestOnGrid tie low num high den closed (point - count)).map fun d =>
      let digits := Numeral.decimal d
      -- A carry into a new place moves the point.
      ⟨trimZeros digits, point + ((digits.length : Int) - count)⟩
  ((List.range 17).findSome? fun i => search (i + 1)).getD ⟨['0'], 1⟩

/-- How doubles are written. -/
structure Layout where
  /-- A double has no exponent if its point lies between these, ends included. -/
  leastPoint : Int
  greatestPoint : Int
  tie : Tie
  /-- Whether an exponent that is not negative has a sign. -/
  plusSign : Bool

/-- Digits with the point among or around them. -/
def positional (value : Digits) : List Char :=
  let count := value.digits.length
  if value.point ≤ 0 then
    ['0', '.'] ++ List.replicate (-value.point).toNat '0' ++ value.digits
  else if value.point.toNat < count then
    value.digits.take value.point.toNat ++ ['.'] ++ value.digits.drop value.point.toNat
  else
    value.digits ++ List.replicate (value.point.toNat - count) '0' ++ ['.', '0']

/-- Digits with the point behind the first one and a power of ten. -/
def scientific (plusSign : Bool) (value : Digits) : List Char :=
  let power := value.point - 1
  let sign := if power < 0 then ['-'] else if plusSign then ['+'] else []
  let lead := match value.digits with
    | first :: second :: rest => first :: '.' :: second :: rest
    | digits => digits
  lead ++ ['e'] ++ sign ++ Numeral.decimal power.natAbs

/-- The text of a double under a layout. -/
def Layout.text (layout : Layout) (bits : UInt64) : String :=
  let sign := if isNegative bits then ['-'] else []
  if ! isFinite bits then
    if bits <<< 12 == 0 then String.ofList (sign ++ ['i', 'n', 'f']) else "NaN"
  else if bits <<< 1 == 0 then String.ofList (sign ++ ['0', '.', '0'])
  else
    let value := shortest layout.tie bits
    let body :=
      if layout.leastPoint ≤ value.point && value.point ≤ layout.greatestPoint then
        positional value
      else scientific layout.plusSign value
    String.ofList (sign ++ body)

/-- The sixteen hexadecimal digits of the bits. -/
def hex (bits : UInt64) : String :=
  let digits := Nat.toDigits 16 bits.toNat
  String.ofList (List.replicate (16 - digits.length) '0' ++ digits)

end QueryEngine.Double
