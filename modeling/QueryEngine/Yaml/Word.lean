import QueryEngine.Json.Reader
import QueryEngine.Yaml.Cursor

/-!
# Scalars in a YAML text

Reading a scalar from a place: `Cursor.quoted?` between quotes, `Cursor.plain?` without them. The
fuel of each is the length of what is left, or more.
-/

namespace QueryEngine.Yaml

/-- The character that so many hexadecimal digits spell. -/
def spelled? (count : Nat) (cs : List Char) : Option Char := do
  if cs.length < count then none
  else
    let digits ← (cs.take count).mapM Json.Reader.hexDigit?
    let number := digits.foldl (fun n digit => n * 16 + digit) 0
    if number.isValidChar then some (Char.ofNat number) else none

/-- The character that an escape between double quotes stands for, and the length of what follows
the backslash. -/
def escape? : List Char → Option (Char × Nat)
  | [] => none
  | c :: rest =>
    match c with
    | '0' => some ('\x00', 1)
    | 'a' => some ('\x07', 1)
    | 'b' => some ('\x08', 1)
    | 't' | '\t' => some ('\t', 1)
    | 'n' => some ('\n', 1)
    | 'v' => some ('\x0b', 1)
    | 'f' => some ('\x0c', 1)
    | 'r' => some ('\r', 1)
    | 'e' => some ('\x1b', 1)
    | ' ' | '"' | '/' | '\\' => some (c, 1)
    | 'N' => some ('\u0085', 1)
    | '_' => some ('\u00a0', 1)
    | 'L' => some ('\u2028', 1)
    | 'P' => some ('\u2029', 1)
    | 'x' => (spelled? 2 rest).map fun d => (d, 3)
    | 'u' => (spelled? 4 rest).map fun d => (d, 5)
    | 'U' => (spelled? 8 rest).map fun d => (d, 9)
    | _ => none

namespace Cursor

/-- The rest of a scalar between quotes; `acc` holds what was read, last first. A single quote is
written twice between single quotes. Between double quotes a backslash starts an escape, and one
at the end of a line joins it with the next. -/
def quoted? (quote : Char) : Nat → List Char → Cursor → Option (List Char × Cursor)
  | 0, _, _ => none
  | fuel + 1, acc, cursor =>
    if cursor.atDocumentMark then none
    else
      match cursor.rest with
      | [] => none
      | c :: rest =>
        if isSpacing c then do
          let (gap, cursor) ← cursor.passGap? 0 (fuel + 2) {}
          cursor.quoted? quote fuel (gap.folded.reverse ++ acc)
        else if c = quote then
          if quote = '\'' && rest.head? = some '\'' then
            (cursor.advance 2).quoted? quote fuel ('\'' :: acc)
          else some (acc.reverse, cursor.advance 1)
        else if c = '\\' && quote = '"' then
          if rest.head?.any isBreak then do
            let (gap, cursor) ← (cursor.advance 1).passBreak.passGap? 0 (fuel + 2) {}
            cursor.quoted? quote fuel (List.replicate gap.breaks '\n' ++ acc)
          else do
            let (d, length) ← escape? rest
            (cursor.advance (length + 1)).quoted? quote fuel (d :: acc)
        else (cursor.advance 1).quoted? quote fuel (c :: acc)

end Cursor

/-- The length of the word at the start of a text. It ends before a gap, before a colon with a gap
behind it, and in a flow collection before its marks. -/
def wordLength (inFlow : Bool) : List Char → Nat
  | [] => 0
  | c :: rest =>
    if isSpacing c || (inFlow && isFlowMark c) then 0
    else if c = ':' && (endsWord rest || (inFlow && rest.head?.any isFlowMark)) then 0
    else wordLength inFlow rest + 1

namespace Cursor

/-- The words of a plain scalar with the gaps between them folded; `text` holds what was read and
`gap` stands behind it. In a block the scalar ends with the first line that starts before the
column `least`. The flag says whether it ends in a new line. -/
def plain? (inFlow : Bool) (least : Nat) :
    Nat → List Char → Gap → Cursor → Option (List Char × Bool × Cursor)
  | 0, _, _, _ => none
  | fuel + 1, text, gap, cursor =>
    if cursor.atDocumentMark || cursor.rest.head? = some '#' then
      some (text, gap.breaks != 0, cursor)
    else
      let length := wordLength inFlow cursor.rest
      let (text, gap) :=
        if length = 0 then (text, gap)
        else (text ++ gap.folded ++ cursor.rest.take length, {})
      let cursor := cursor.advance length
      if cursor.rest.head?.any isSpacing then do
        let (gap, cursor) ← cursor.passGap? least (fuel + 2) gap
        if ! inFlow && cursor.column < least then some (text, gap.breaks != 0, cursor)
        else cursor.plain? inFlow least fuel text gap
      else some (text, gap.breaks != 0, cursor)

end Cursor

end QueryEngine.Yaml
