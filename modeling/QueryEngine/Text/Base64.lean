/-!
# Base64

Octets as text of sixty-four letters, with padding. `decode` accepts exactly what `encode` writes:
whole groups of four letters, padding only in the last one, and no bit left over.
-/

namespace QueryEngine.Base64

/-- The letter of a number below sixty-four. -/
def letter (n : Nat) : Char :=
  if n < 26 then Char.ofNat (65 + n)
  else if n < 52 then Char.ofNat (71 + n)
  else if n < 62 then Char.ofNat (n - 4)
  else if n = 62 then '+'
  else '/'

/-- The number that a letter stands for. -/
def sextet? (c : Char) : Option Nat :=
  if 'A' ≤ c ∧ c ≤ 'Z' then some (c.toNat - 65)
  else if 'a' ≤ c ∧ c ≤ 'z' then some (c.toNat - 71)
  else if '0' ≤ c ∧ c ≤ '9' then some (c.toNat + 4)
  else if c = '+' then some 62
  else if c = '/' then some 63
  else none

/-- Octets as text: three octets make four letters. -/
def encode : List Nat → List Char
  | a :: b :: c :: rest =>
    letter (a / 4) :: letter (a % 4 * 16 + b / 16) :: letter (b % 16 * 4 + c / 64)
      :: letter (c % 64) :: encode rest
  | [a, b] => [letter (a / 4), letter (a % 4 * 16 + b / 16), letter (b % 16 * 4), '=']
  | [a] => [letter (a / 4), letter (a % 4 * 16), '=', '=']
  | [] => []

/-- The octets that a text stands for. -/
def decode : List Char → Option (List Nat)
  | [] => some []
  | [p, q, '=', '='] => do
    let p ← sextet? p
    let q ← sextet? q
    if q % 16 = 0 then pure [p * 4 + q / 16] else none
  | [p, q, r, '='] => do
    let p ← sextet? p
    let q ← sextet? q
    let r ← sextet? r
    if r % 4 = 0 then pure [p * 4 + q / 16, q % 16 * 16 + r / 4] else none
  | p :: q :: r :: s :: rest => do
    let p ← sextet? p
    let q ← sextet? q
    let r ← sextet? r
    let s ← sextet? s
    let octets ← decode rest
    pure ([p * 4 + q / 16, q % 16 * 16 + r / 4, r % 4 * 64 + s] ++ octets)
  | _ => none

end QueryEngine.Base64
