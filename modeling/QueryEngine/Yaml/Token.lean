import QueryEngine.Yaml.Word

/-!
# The tokens of a YAML text

`Token.ofText?` splits a text into tokens. Indentation becomes tokens of its own: a `Lexer` keeps
the columns of the open block collections, opens one where an entry stands further to the right
than all of them, and closes those that a new line leaves. Whether a scalar is a key is known only
at the colon behind it, so the lexer remembers where a key may have started (`KeyStart`) and puts
the token that announces it in front of it later.

Anchors, tags, block scalars and directives are refused.
-/

namespace QueryEngine.Yaml

/-- A token of a document. -/
inductive Token where
  | documentStart
  | documentEnd
  /-- A sequence in block form starts; `blockEnd` ends it. -/
  | blockSequence
  /-- A mapping in block form starts; `blockEnd` ends it. -/
  | blockMapping
  | blockEnd
  | flowSequence
  | flowSequenceEnd
  | flowMapping
  | flowMappingEnd
  /-- The dash before an item of a sequence in block form. -/
  | dash
  /-- The comma between the entries of a flow collection. -/
  | comma
  /-- A key follows. -/
  | key
  /-- A value follows. -/
  | value
  /-- A scalar; one between quotes is a text whatever it looks like. -/
  | scalar (text : List Char) (quoted : Bool)
deriving DecidableEq

/-- A place where a key may have started. -/
structure KeyStart where
  /-- The number of tokens before it. -/
  number : Nat
  index : Nat
  line : Nat
  column : Nat
  /-- Whether nothing but a key can stand there. -/
  required : Bool

/-- A text that is being split into tokens. -/
structure Lexer where
  cursor : Cursor
  /-- The tokens so far, last first. -/
  tokens : List Token := []
  /-- The columns of the open block collections, innermost first. -/
  columns : List Nat := []
  /-- Whether a key may start here. -/
  keyAllowed : Bool := true
  /-- Where a key of the innermost collection may have started. -/
  key : Option KeyStart := none
  /-- The same for the collections around the open flow collections, innermost first. -/
  outer : List (Option KeyStart) := []
  /-- The place behind the last scalar between quotes. -/
  behindQuote : Option Nat := none

namespace Lexer

/-- Whether a flow collection is open. -/
def inFlow (s : Lexer) : Bool :=
  ! s.outer.isEmpty

/-- Adds a token. -/
def emit (token : Token) (s : Lexer) : Lexer :=
  { s with tokens := token :: s.tokens }

/-- Puts a token behind the first `number` ones. -/
def insert (number : Nat) (token : Token) (s : Lexer) : Lexer :=
  { s with tokens := s.tokens.insertIdx (s.tokens.length - number) token }

/-- Passes some characters, none of them a line feed. -/
def advance (count : Nat) (s : Lexer) : Lexer :=
  { s with cursor := s.cursor.advance count }

/-- Passes the gap and the comments before the next token. In block form a line may start with a
key, and a tab before it is no gap. -/
def passGap : Nat → Lexer → Lexer
  | 0, s => s
  | fuel + 1, s =>
    match s.cursor.rest with
    | [] => s
    | c :: _ =>
      if c == ' ' || (c == '\t' && (s.inFlow || ! s.keyAllowed)) then (s.advance 1).passGap fuel
      else if isBreak c then
        passGap fuel
          { s with cursor := s.cursor.passBreak, keyAllowed := s.keyAllowed || ! s.inFlow }
      else if c == '#' then passGap fuel { s with cursor := s.cursor.passLine }
      else s

/-! ## Keys -/

/-- Whether the colon behind a key would come too late: it has to stand on the line of the key and
at most 1024 characters behind its start. -/
def isLate (s : Lexer) (start : KeyStart) : Bool :=
  start.line < s.cursor.line || start.index + 1024 < s.cursor.index

/-- Forgets the places that are no longer the start of a key. -/
def dropLate? (s : Lexer) : Option Lexer :=
  if (s.key :: s.outer).any (Option.any fun start => start.required && s.isLate start) then none
  else
    some { s with
      key := s.key.filter (! s.isLate ·)
      outer := s.outer.map (Option.filter (! s.isLate ·)) }

/-- Forgets where a key of the innermost collection may have started. -/
def dropKey? (s : Lexer) : Option Lexer :=
  if s.key.any (·.required) then none else some { s with key := none }

/-- Remembers the place as the start of a key, if one may start here. -/
def saveKey? (s : Lexer) : Option Lexer :=
  if s.keyAllowed then do
    let required := s.inFlow && s.columns.head? == some s.cursor.column
    let s ← s.dropKey?
    let ⟨_, index, line, column⟩ := s.cursor
    pure { s with key := some ⟨s.tokens.length, index, line, column, required⟩ }
  else some s

/-! ## Indentation -/

/-- Opens a block collection at a column to the right of all open ones. Its token comes behind the
first `number` tokens. -/
def openBlock (column number : Nat) (token : Token) (s : Lexer) : Lexer :=
  if s.inFlow || s.columns.head?.any (column ≤ ·) then s
  else { s.insert number token with columns := column :: s.columns }

/-- Closes the open block collections with the given columns, unless a flow collection is open. -/
def closeBlocks (left : Nat → Bool) (s : Lexer) : Lexer :=
  if s.inFlow then s
  else
    { s with
      tokens := (s.columns.takeWhile left).map (fun _ => .blockEnd) ++ s.tokens
      columns := s.columns.dropWhile left }

/-! ## Steps -/

/-- The mark between documents. -/
def documentMark? (token : Token) (s : Lexer) : Option Lexer := do
  let s ← (s.closeBlocks fun _ => true).dropKey?
  pure ({ s with keyAllowed := false }.advance 3 |>.emit token)

/-- The bracket that opens a flow collection. -/
def openFlow? (token : Token) (s : Lexer) : Option Lexer := do
  let s ← s.saveKey?
  pure ({ s with key := none, outer := s.key :: s.outer, keyAllowed := true }.advance 1
    |>.emit token)

/-- The bracket that closes a flow collection. -/
def closeFlow? (token : Token) (s : Lexer) : Option Lexer := do
  let s ← s.dropKey?
  pure ({ s with key := s.outer.head?.join, outer := s.outer.tail, keyAllowed := false }.advance 1
    |>.emit token)

/-- The comma in a flow collection. -/
def comma? (s : Lexer) : Option Lexer := do
  let s ← s.dropKey?
  pure ({ s with keyAllowed := true }.advance 1 |>.emit .comma)

/-- The dash before an item. -/
def dash? (s : Lexer) : Option Lexer :=
  if s.inFlow || ! s.keyAllowed then none
  else do
    let s ← (s.openBlock s.cursor.column s.tokens.length .blockSequence).dropKey?
    pure ({ s with keyAllowed := true }.advance 1 |>.emit .dash)

/-- The question mark before a key. -/
def question? (s : Lexer) : Option Lexer :=
  if ! s.inFlow && ! s.keyAllowed then none
  else do
    let s ← (s.openBlock s.cursor.column s.tokens.length .blockMapping).dropKey?
    pure ({ s with keyAllowed := ! s.inFlow }.advance 1 |>.emit .key)

/-- The colon before a value. What may have started a key has done so; without one the colon
stands where a key might. -/
def colon? (s : Lexer) : Option Lexer :=
  match s.key with
  | some start =>
    let s := (s.insert start.number .key).openBlock start.column start.number .blockMapping
    some ({ s with key := none, keyAllowed := false }.advance 1 |>.emit .value)
  | none =>
    if ! s.inFlow && ! s.keyAllowed then none
    else
      let s := s.openBlock s.cursor.column s.tokens.length .blockMapping
      some ({ s with keyAllowed := ! s.inFlow }.advance 1 |>.emit .value)

/-- A scalar between quotes. -/
def quoted? (quote : Char) (fuel : Nat) (s : Lexer) : Option Lexer := do
  let s ← s.saveKey?
  let (text, cursor) ← (s.cursor.advance 1).quoted? quote fuel []
  pure ({ s with cursor, keyAllowed := false, behindQuote := some cursor.index }.emit
    (.scalar text true))

/-- A plain scalar. In a block its lines stand to the right of the collection that it is in. -/
def plain? (fuel : Nat) (s : Lexer) : Option Lexer := do
  let s ← s.saveKey?
  let least := match s.columns with
    | [] => 0
    | column :: _ => column + 1
  let (text, keyAllowed, cursor) ← s.cursor.plain? s.inFlow least fuel [] {}
  pure ({ s with cursor, keyAllowed }.emit (.scalar text false))

/-- Whether a colon announces a value: a gap is behind it, or in a flow collection one of its
marks, or a scalar between quotes right before it. -/
def isColon (s : Lexer) (rest : List Char) : Bool :=
  endsWord rest
    || (s.inFlow && (rest.head?.any isFlowMark || s.behindQuote == some s.cursor.index))

/-- Reads the token that starts with `c`. -/
def token? (fuel : Nat) (s : Lexer) (c : Char) (rest : List Char) : Option Lexer :=
  if s.cursor.column == 0 && c == '%' then none
  else if s.cursor.atMark '-' then s.documentMark? .documentStart
  else if s.cursor.atMark '.' then s.documentMark? .documentEnd
  else if c == '[' then s.openFlow? .flowSequence
  else if c == '\x7b' then s.openFlow? .flowMapping
  else if c == ']' then s.closeFlow? .flowSequenceEnd
  else if c == '\x7d' then s.closeFlow? .flowMappingEnd
  else if c == ',' then s.comma?
  else if c == '-' && endsWord rest then s.dash?
  else if c == '?' && endsWord rest then s.question?
  else if c == ':' && s.isColon rest then s.colon?
  else if ['*', '&', '!', '%', '@', Char.ofNat 96].contains c then none
  else if ['|', '>'].contains c && ! s.inFlow then none
  else if c == '\'' || c == '"' then s.quoted? c fuel
  else s.plain? fuel

/-- Reads the rest of a text. Every token takes at least one character. -/
def run? : Nat → Lexer → Option (List Token)
  | 0, _ => none
  | fuel + 1, s => do
    let s ← (s.passGap (fuel + 1)).dropLate?
    let s := s.closeBlocks (s.cursor.column < ·)
    match s.cursor.rest with
    | [] => do
      let s ← (s.closeBlocks fun _ => true).dropKey?
      pure s.tokens.reverse
    | c :: rest => do
      let s ← s.token? (fuel + 1) c rest
      s.run? fuel

end Lexer

/-- The tokens of a text, which a null character ends. -/
def Token.ofText? (text : String) : Option (List Token) :=
  let cs := text.toList.takeWhile (· != '\x00')
  Lexer.run? (cs.length + 1) { cursor := ⟨cs, 0, 0, 0⟩ }

end QueryEngine.Yaml
