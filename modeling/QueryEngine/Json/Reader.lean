import QueryEngine.Json
import QueryEngine.Text.Double

/-!
# Reading JSON text

A reader over the characters of a text. A number without point and exponent is a whole number if
it fits 64 bits, with or without sign, and a double otherwise; of two entries with one key the
later value wins at the place of the earlier one. The fuel of the readers is the length of the
text, which no nesting exceeds.
-/

namespace QueryEngine.Json

namespace Reader

/-- Drops the blanks in front. -/
def skipBlank (cs : List Char) : List Char :=
  cs.dropWhile fun c => c == ' ' || c == '\n' || c == '\t' || c == '\r'

/-- The value of a hexadecimal digit. -/
def hexDigit? (c : Char) : Option Nat :=
  if c.isDigit then some (c.toNat - 48)
  else if 'a' ≤ c ∧ c ≤ 'f' then some (c.toNat - 87)
  else if 'A' ≤ c ∧ c ≤ 'F' then some (c.toNat - 55)
  else none

/-- The number that four hexadecimal digits write. -/
def hexUnit? : List Char → Option (Nat × List Char)
  | a :: b :: c :: d :: rest => do
    let a ← hexDigit? a
    let b ← hexDigit? b
    let c ← hexDigit? c
    let d ← hexDigit? d
    pure (((a * 16 + b) * 16 + c) * 16 + d, rest)
  | _ => none

/-- The character that an escape behind a backslash and the letter u stands for; a pair of
surrogates is one character. -/
def unicodeEscape? (cs : List Char) : Option (Char × List Char) := do
  let (high, rest) ← hexUnit? cs
  if 0xD800 ≤ high ∧ high < 0xDC00 then
    match rest with
    | '\\' :: 'u' :: rest =>
      let (low, rest) ← hexUnit? rest
      if 0xDC00 ≤ low ∧ low < 0xE000 then
        pure (Char.ofNat (0x10000 + (high - 0xD800) * 0x400 + (low - 0xDC00)), rest)
      else none
    | _ => none
  else if 0xDC00 ≤ high ∧ high < 0xE000 then none
  else pure (Char.ofNat high, rest)

/-- Whether a character stands for itself in a JSON string. -/
def isPlain (c : Char) : Bool :=
  32 ≤ c.toNat

/-- The rest of a string behind its opening quote; `acc` holds what was read, last first. Characters
that are not `plain` stand in a string only behind a backslash, and `unicode?` reads the escapes
behind a backslash and the letter u. -/
def string? (plain : Char → Bool) (unicode? : List Char → Option (Char × List Char)) :
    Nat → List Char → List Char → Option (String × List Char)
  | 0, _, _ => none
  | fuel + 1, acc, cs =>
    match cs with
    | '"' :: rest => some (String.ofList acc.reverse, rest)
    | '\\' :: 'u' :: rest => do
      let (c, rest) ← unicode? rest
      string? plain unicode? fuel (c :: acc) rest
    | '\\' :: c :: rest =>
      match c with
      | 'n' => string? plain unicode? fuel ('\n' :: acc) rest
      | 't' => string? plain unicode? fuel ('\t' :: acc) rest
      | 'r' => string? plain unicode? fuel ('\r' :: acc) rest
      | 'b' => string? plain unicode? fuel ('\x08' :: acc) rest
      | 'f' => string? plain unicode? fuel ('\x0c' :: acc) rest
      | '"' | '\\' | '/' => string? plain unicode? fuel (c :: acc) rest
      | _ => none
    | c :: rest => if plain c then string? plain unicode? fuel (c :: acc) rest else none
    | [] => none

/-- The number that a run of digits writes. -/
def digitsValue (digits : List Char) : Nat :=
  digits.foldl (fun n c => n * 10 + (c.toNat - 48)) 0

/-- The power of ten behind the digits, zero if none is written. -/
def exponent? (cs : List Char) : Option (Option Int × List Char) :=
  match cs with
  | c :: rest =>
    if c == 'e' || c == 'E' then
      let (negative, rest) := match rest with
        | '-' :: rest => (true, rest)
        | '+' :: rest => (false, rest)
        | _ => (false, rest)
      let digits := rest.takeWhile Char.isDigit
      if digits.isEmpty then none
      else
        let n : Int := digitsValue digits
        some (some (if negative then -n else n), rest.dropWhile Char.isDigit)
    else some (none, cs)
  | [] => some (none, [])

/-- The number that a decimal stands for: a whole number where it is written as one and fits. -/
def numberOf? (negative : Bool) (whole fraction : List Char) (exponent : Option Int)
    (pointed : Bool) : Option Number :=
  let value := digitsValue whole
  let signed : Int := if negative then -(value : Int) else value
  let isWhole := ! pointed && exponent.isNone && ! (negative && value == 0)
  if isWhole && (Width.Signed 64 signed || Width.Unsigned 64 signed) then some (.int signed)
  else
    let literal : Double.Literal :=
      { negative, digits := digitsValue (whole ++ fraction)
        exponent := exponent.getD 0 - fraction.length }
    let bits := literal.toBits
    if Double.isFinite bits then some (.float bits) else none

/-- A number. -/
def number? (cs : List Char) : Option (Number × List Char) := do
  let (negative, cs) := match cs with
    | '-' :: rest => (true, rest)
    | _ => (false, cs)
  let whole := cs.takeWhile Char.isDigit
  let cs := cs.dropWhile Char.isDigit
  if whole.isEmpty || (whole.head? == some '0' && 1 < whole.length) then none
  else
    let (pointed, fraction, cs) := match cs with
      | '.' :: rest => (true, rest.takeWhile Char.isDigit, rest.dropWhile Char.isDigit)
      | _ => (false, [], cs)
    if pointed && fraction.isEmpty then none
    else
      let (exponent, cs) ← exponent? cs
      let read ← numberOf? negative whole fraction exponent pointed
      pure (read, cs)

mutual

/-- A value, with no blanks in front. -/
def value? : Nat → List Char → Option (Json × List Char)
  | 0, _ => none
  | fuel + 1, cs =>
    match cs with
    | 'n' :: 'u' :: 'l' :: 'l' :: rest => some (.null, rest)
    | 't' :: 'r' :: 'u' :: 'e' :: rest => some (.bool true, rest)
    | 'f' :: 'a' :: 'l' :: 's' :: 'e' :: rest => some (.bool false, rest)
    | '"' :: rest => do
      let (text, rest) ← string? isPlain unicodeEscape? (rest.length + 1) [] rest
      pure (.string text, rest)
    | '[' :: rest =>
      match skipBlank rest with
      | ']' :: rest => some (.array [], rest)
      | rest => items? fuel [] rest
    | '\x7b' :: rest =>
      match skipBlank rest with
      | '\x7d' :: rest => some (.object [], rest)
      | rest => entries? fuel [] rest
    | cs => do
      let (read, rest) ← number? cs
      pure (.number read, rest)

/-- The items of an array up to its closing bracket; `acc` holds those read, last first. -/
def items? : Nat → List Json → List Char → Option (Json × List Char)
  | 0, _, _ => none
  | fuel + 1, acc, cs => do
    let (item, rest) ← value? fuel cs
    match skipBlank rest with
    | ',' :: rest => items? fuel (item :: acc) (skipBlank rest)
    | ']' :: rest => pure (.array (item :: acc).reverse, rest)
    | _ => none

/-- The entries of an object up to its closing brace; `acc` holds those read, last first. -/
def entries? : Nat → List (String × Json) → List Char → Option (Json × List Char)
  | 0, _, _ => none
  | fuel + 1, acc, cs =>
    match cs with
    | '"' :: rest => do
      let (key, rest) ← string? isPlain unicodeEscape? (rest.length + 1) [] rest
      match skipBlank rest with
      | ':' :: rest => do
        let (value, rest) ← value? fuel (skipBlank rest)
        match skipBlank rest with
        | ',' :: rest => entries? fuel ((key, value) :: acc) (skipBlank rest)
        | '\x7d' :: rest => pure (.object (Entries.ofList ((key, value) :: acc).reverse), rest)
        | _ => none
      | _ => none
    | _ => none
end

end Reader

/-- The value that a whole text writes. -/
def ofText? (text : String) : Option Json :=
  let cs := Reader.skipBlank text.toList
  match Reader.value? (2 * cs.length + 2) cs with
  | some (value, rest) => if (Reader.skipBlank rest).isEmpty then some value else none
  | none => none

end QueryEngine.Json
