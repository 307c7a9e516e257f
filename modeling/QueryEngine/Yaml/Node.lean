import QueryEngine.Width
import QueryEngine.Yaml.Token

/-!
# The nodes of a YAML document

`Node.ofTokens?` reads the one node of a document from its tokens; where a key or a value is left
out, a null stands. `Node.natural?` and `Node.isNull` say what a plain scalar means.
-/

namespace QueryEngine.Yaml

/-- A node of a document. -/
inductive Node where
  | scalar (text : List Char) (quoted : Bool)
  | sequence (items : List Node)
  | mapping (entries : List (Node × Node))
deriving Inhabited

namespace Node

/-- The node that stands where nothing is written. -/
def absent : Node := .scalar ['~'] false

/-! ## From tokens -/

/-- Whether an entry of a mapping in block form has nothing here. -/
def endsInBlock : List Token → Bool
  | .key :: _ | .value :: _ | .blockEnd :: _ => true
  | _ => false

/-- Whether an item of a sequence in block form has nothing here. -/
def endsInItems : List Token → Bool
  | .dash :: _ => true
  | tokens => endsInBlock tokens

/-- Whether an entry of a mapping in flow form has nothing here. -/
def endsInBraces : List Token → Bool
  | .comma :: _ | .flowMappingEnd :: _ => true
  | _ => false

/-- Whether an entry of a sequence in flow form has nothing here. -/
def endsInBrackets : List Token → Bool
  | .comma :: _ | .flowSequenceEnd :: _ => true
  | _ => false

/-- What stands behind the comma before an entry of a flow collection; the first entry has none. -/
def behindComma? (isFirst : Bool) (tokens : List Token) : Option (List Token) :=
  if isFirst then some tokens
  else
    match tokens with
    | .comma :: rest => some rest
    | _ => none

mutual

/-- The node that the tokens start with. The fuel is twice the number of tokens or more. -/
def ofTokensGo? : Nat → List Token → Option (Node × List Token)
  | 0, _ => none
  | fuel + 1, tokens =>
    match tokens with
    | .scalar text quoted :: rest => some (.scalar text quoted, rest)
    | .flowSequence :: rest => brackets? fuel true [] rest
    | .flowMapping :: rest => braces? fuel true [] rest
    | .blockSequence :: rest => blockItems? fuel [] rest
    | .blockMapping :: rest => blockEntries? fuel [] rest
    | .dash :: _ => dashItems? fuel [] tokens
    | _ => none

/-- The entries of a mapping in block form. -/
def blockEntries? : Nat → List (Node × Node) → List Token → Option (Node × List Token)
  | 0, _, _ => none
  | fuel + 1, acc, tokens =>
    match tokens with
    | .blockEnd :: rest => some (.mapping acc.reverse, rest)
    | _ => do
      let (key, rest) ← match tokens with
        | .key :: rest => if endsInBlock rest then some (absent, rest) else ofTokensGo? fuel rest
        | .value :: _ => some (absent, tokens)
        | _ => none
      let (value, rest) ← match rest with
        | .value :: rest => if endsInBlock rest then some (absent, rest) else ofTokensGo? fuel rest
        | _ => some (absent, rest)
      blockEntries? fuel ((key, value) :: acc) rest

/-- The items of a sequence in block form that is indented. -/
def blockItems? : Nat → List Node → List Token → Option (Node × List Token)
  | 0, _, _ => none
  | fuel + 1, acc, tokens =>
    match tokens with
    | .blockEnd :: rest => some (.sequence acc.reverse, rest)
    | .dash :: rest => do
      let (item, rest) ← match rest with
        | .dash :: _ | .blockEnd :: _ => some (absent, rest)
        | _ => ofTokensGo? fuel rest
      blockItems? fuel (item :: acc) rest
    | _ => none

/-- The items of a sequence whose dashes stand in the column of the keys around it. -/
def dashItems? : Nat → List Node → List Token → Option (Node × List Token)
  | 0, _, _ => none
  | fuel + 1, acc, tokens =>
    match tokens with
    | .dash :: rest => do
      let (item, rest) ←
        if endsInItems rest then some (absent, rest) else ofTokensGo? fuel rest
      dashItems? fuel (item :: acc) rest
    | _ => some (.sequence acc.reverse, tokens)

/-- The entries of a mapping in flow form. A comma may stand behind the last one. -/
def braces? : Nat → Bool → List (Node × Node) → List Token → Option (Node × List Token)
  | 0, _, _, _ => none
  | fuel + 1, isFirst, acc, tokens =>
    match tokens with
    | .flowMappingEnd :: rest => some (.mapping acc.reverse, rest)
    | _ => do
      match ← behindComma? isFirst tokens with
      | .flowMappingEnd :: rest => pure (.mapping acc.reverse, rest)
      | .key :: rest =>
        let (key, rest) ← match rest with
          | .value :: _ => some (absent, rest)
          | _ => if endsInBraces rest then some (absent, rest) else ofTokensGo? fuel rest
        let (value, rest) ← flowValue? fuel endsInBraces rest
        braces? fuel false ((key, value) :: acc) rest
      | .value :: rest =>
        let (value, rest) ← flowValue? fuel endsInBraces (.value :: rest)
        braces? fuel false ((absent, value) :: acc) rest
      | rest =>
        let (key, rest) ← ofTokensGo? fuel rest
        braces? fuel false ((key, absent) :: acc) rest

/-- The items of a sequence in flow form. An item with a colon is a mapping of one entry. -/
def brackets? : Nat → Bool → List Node → List Token → Option (Node × List Token)
  | 0, _, _, _ => none
  | fuel + 1, isFirst, acc, tokens =>
    match tokens with
    | .flowSequenceEnd :: rest => some (.sequence acc.reverse, rest)
    | _ => do
      match ← behindComma? isFirst tokens with
      | .flowSequenceEnd :: rest => pure (.sequence acc.reverse, rest)
      | .key :: rest =>
        let (key, rest) ← match rest with
          | .value :: _ => some (absent, rest)
          | _ => if endsInBrackets rest then some (absent, rest) else ofTokensGo? fuel rest
        let (value, rest) ← flowValue? fuel endsInBrackets rest
        brackets? fuel false (.mapping [(key, value)] :: acc) rest
      | rest =>
        let (item, rest) ← ofTokensGo? fuel rest
        brackets? fuel false (item :: acc) rest

/-- The value of an entry in flow form, if a colon stands before it. -/
def flowValue? : Nat → (List Token → Bool) → List Token → Option (Node × List Token)
  | 0, _, _ => none
  | fuel + 1, ends, tokens =>
    match tokens with
    | .value :: rest => if ends rest then some (absent, rest) else ofTokensGo? fuel rest
    | _ => some (absent, tokens)
end

/-- The node of the document with these tokens. Nothing but marks of its end may stand behind
it. -/
def ofTokens? (tokens : List Token) : Option Node := do
  let content := match tokens with
    | .documentStart :: rest => rest
    | _ => tokens
  let (node, rest) ← ofTokensGo? (2 * content.length + 2) content
  if rest.all (· == .documentEnd) then pure node else none

/-- The node of a document. -/
def ofText? (text : String) : Option Node := do
  ofTokens? (← Token.ofText? text)

/-! ## Meaning of scalars -/

/-- Whether a node is a null that is written out. -/
def isNull : Node → Bool
  | .scalar text false => text == ['~'] || text == "null".toList
  | _ => false

/-- The number that digits of a base write, if it is less than `2 ^ 64`. -/
def inBase? (base : Nat) (cs : List Char) : Option Nat := do
  let digits ← cs.mapM Json.Reader.hexDigit?
  if digits.isEmpty || digits.any (base ≤ ·) then none
  else
    let n := digits.foldl (fun n digit => n * base + digit) 0
    if n < Width.values 64 then pure n else none

/-- The base that a letter behind a zero stands for. -/
def base? : Char → Option Nat
  | 'x' => some 16
  | 'o' => some 8
  | 'b' => some 2
  | _ => none

/-- The text without a plus sign in front. -/
def withoutPlus : List Char → List Char
  | '+' :: rest => rest
  | cs => cs

/-- The number that the digits behind a marker of their base write. They may have a plus sign
before them even where the marker has one. A number with a minus sign has to be zero. -/
def marked? (negative : Bool) (base : Nat) (cs : List Char) : Option Nat := do
  if negative then
    let n ← inBase? base cs
    if n = 0 then pure 0 else none
  else inBase? base (withoutPlus cs)

/-- A whole number of 64 bits: decimal, or in base 16, 8 or 2 behind a marker. A decimal number of
more than one digit does not start with a zero, and zero may have a minus sign. -/
def natural? : Node → Option Nat
  | .scalar text false =>
    let negative := text.head? == some '-'
    let digits := if negative then text.tail else withoutPlus text
    match digits with
    | '0' :: mark :: rest => do marked? negative (← base? mark) rest
    | _ => if negative then (if digits = ['0'] then some 0 else none) else inBase? 10 digits
  | _ => none

end Node

end QueryEngine.Yaml
