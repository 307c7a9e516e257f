import QueryEngine.Json.Reader

/-!
# Tokens

The words of schemas and queries. Blanks, line ends, commas and comments separate words and are
none themselves. `Token.scan?` splits a text into its words; its fuel is the length of the text.
-/

namespace QueryEngine

/-- A word of a schema or a query. -/
inductive Token where
  | punctuator (text : String)
  | name (text : String)
  | int (value : Int)
  | float (value : Double.Literal)
  | string (text : String)
deriving Inhabited

namespace Token

/-- Whether a character may start a name. -/
def isNameStart (c : Char) : Bool :=
  c.isAlpha || c == '_'

/-- Whether a character may go on a name. -/
def isNamePart (c : Char) : Bool :=
  c.isAlphanum || c == '_'

/-- Whether a character only separates words. -/
def isIgnored (c : Char) : Bool :=
  c == ' ' || c == '\t' || c == '\n' || c == '\r' || c == ',' || c.toNat == 0xfeff

/-- Whether a character is a word by itself. -/
def isPunctuator (c : Char) : Bool :=
  ['!', '$', '&', '(', ')', ':', '=', '@', '[', ']', '\x7b', '|', '\x7d'].contains c

/-- Whether a character stands for itself in a string. -/
def isPlain (c : Char) : Bool :=
  c != '\n' && c != '\r'

/-- The character that an escape behind a backslash and the letter u stands for: four digits and
pairs of surrogates as in JSON, or any number of digits between braces. -/
def unicodeEscape? (cs : List Char) : Option (Char × List Char) :=
  match cs with
  | '\x7b' :: rest =>
    match rest.dropWhile (· != '\x7d') with
    | '\x7d' :: behind => do
      let digits ← (rest.takeWhile (· != '\x7d')).mapM Json.Reader.hexDigit?
      let number := digits.foldl (fun n digit => n * 16 + digit) 0
      if ! digits.isEmpty && decide number.isValidChar then pure (Char.ofNat number, behind)
      else none
    | _ => none
  | _ => Json.Reader.unicodeEscape? cs

/-- A number: whole unless a point or an exponent is written. No name may follow it directly. -/
def number? (cs : List Char) : Option (Token × List Char) := do
  let (negative, cs) := match cs with
    | '-' :: rest => (true, rest)
    | _ => (false, cs)
  let whole := cs.takeWhile Char.isDigit
  let cs := cs.dropWhile Char.isDigit
  if whole.isEmpty || (whole.head? == some '0' && 1 < whole.length) then none
  else
    let (pointed, fraction, cs) := match cs with
      | '.' :: rest => (true, rest.takeWhile Char.isDigit, rest.dropWhile Char.isDigit)
      | _ => (false, [], cs)
    if pointed && fraction.isEmpty then none
    else
      let (exponent, cs) ← Json.Reader.exponent? cs
      let runsOn := match cs with
        | c :: _ => isNameStart c || c == '.'
        | [] => false
      if runsOn then none
      else if pointed || exponent.isSome then
        pure (.float {
          negative
          digits := Json.Reader.digitsValue (whole ++ fraction)
          exponent := exponent.getD 0 - fraction.length }, cs)
      else
        let value : Int := Json.Reader.digitsValue whole
        pure (.int (if negative then -value else value), cs)

/-- The words of a text; `acc` holds those read, last first. -/
def scanFrom? : Nat → List Token → List Char → Option (List Token)
  | 0, _, _ => none
  | fuel + 1, acc, cs =>
    match cs with
    | [] => some acc.reverse
    | '#' :: rest => scanFrom? fuel acc (rest.dropWhile fun c => c != '\n' && c != '\r')
    | '.' :: '.' :: '.' :: rest => scanFrom? fuel (.punctuator "..." :: acc) rest
    | '"' :: '"' :: '"' :: _ => none
    | '"' :: rest => do
      let (text, rest) ← Json.Reader.string? isPlain unicodeEscape? (rest.length + 1) [] rest
      scanFrom? fuel (.string text :: acc) rest
    | c :: rest =>
      if isIgnored c then scanFrom? fuel acc rest
      else if isPunctuator c then scanFrom? fuel (.punctuator c.toString :: acc) rest
      else if isNameStart c then
        let text := c :: rest.takeWhile isNamePart
        scanFrom? fuel (.name (String.ofList text) :: acc) (rest.dropWhile isNamePart)
      else do
        let (token, rest) ← number? cs
        scanFrom? fuel (token :: acc) rest

/-- The words of a text, if it has no others. -/
def scan? (text : String) : Option (List Token) :=
  let cs := text.toList
  scanFrom? (cs.length + 1) [] cs

end Token

end QueryEngine
