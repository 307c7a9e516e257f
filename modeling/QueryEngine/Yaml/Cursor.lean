/-!
# Places in a YAML text

A `Cursor` is a place in a text: what is left, and the line and column that decide about keys and
indentation. A `Gap` is a run of blanks and line breaks between two words of a scalar; inside a
scalar a gap is folded (`Gap.folded`).
-/

namespace QueryEngine.Yaml

/-- Whether a character ends a line. -/
def isBreak (c : Char) : Bool :=
  c == '\n' || c == '\r'

/-- Whether a character separates words on a line. -/
def isBlank (c : Char) : Bool :=
  c == ' ' || c == '\t'

/-- Whether a character separates words. -/
def isSpacing (c : Char) : Bool :=
  isBlank c || isBreak c

/-- Whether a text ends or goes on with a character that separates words. -/
def endsWord : List Char → Bool
  | [] => true
  | c :: _ => isSpacing c

/-- Whether a character has a meaning of its own between the brackets of a flow collection. -/
def isFlowMark (c : Char) : Bool :=
  [',', '[', ']', '\x7b', '\x7d'].contains c

/-- A place in a text. -/
structure Cursor where
  /-- What is left of the text. -/
  rest : List Char
  /-- The number of characters behind the place. -/
  index : Nat := 0
  /-- The number of line feeds behind the place. A carriage return alone ends a line without
  counting as one. -/
  line : Nat := 0
  /-- The number of characters since the last line feed. -/
  column : Nat := 0

namespace Cursor

/-- Passes some characters, none of them a line feed. -/
def advance (count : Nat) (cursor : Cursor) : Cursor :=
  { cursor with
    rest := cursor.rest.drop count
    index := cursor.index + count
    column := cursor.column + count }

/-- Passes the end of a line, if the place is before one. -/
def passBreak (cursor : Cursor) : Cursor :=
  match cursor.rest with
  | '\r' :: '\n' :: rest => ⟨rest, cursor.index + 2, cursor.line + 1, 0⟩
  | '\n' :: rest => ⟨rest, cursor.index + 1, cursor.line + 1, 0⟩
  | '\r' :: _ => cursor.advance 1
  | _ => cursor

/-- Passes the characters up to the end of the line. -/
def passLine (cursor : Cursor) : Cursor :=
  cursor.advance (cursor.rest.takeWhile (! isBreak ·)).length

/-- Whether the first column holds three times the given character as a word. -/
def atMark (c : Char) (cursor : Cursor) : Bool :=
  cursor.column == 0 && cursor.rest.take 3 == [c, c, c] && endsWord (cursor.rest.drop 3)

/-- Whether a document starts or ends at the place. -/
def atDocumentMark (cursor : Cursor) : Bool :=
  cursor.atMark '-' || cursor.atMark '.'

end Cursor

/-- A run of blanks and line breaks: the blanks before the first break, last first, and the number
of breaks. -/
structure Gap where
  blanks : List Char := []
  breaks : Nat := 0

/-- What a gap inside a scalar stands for: on one line it stands for itself, a single break is a
space, and of several breaks the first is dropped. -/
def Gap.folded (gap : Gap) : List Char :=
  match gap.breaks with
  | 0 => gap.blanks.reverse
  | 1 => [' ']
  | more + 1 => List.replicate more '\n'

/-- Passes a gap that goes on from `gap`. There is none if a tab stands in a new line before the
column `least`. -/
def Cursor.passGap? (least : Nat) : Nat → Gap → Cursor → Option (Gap × Cursor)
  | 0, _, _ => none
  | fuel + 1, gap, cursor =>
    match cursor.rest with
    | [] => some (gap, cursor)
    | c :: _ =>
      if isBreak c then cursor.passBreak.passGap? least fuel { gap with breaks := gap.breaks + 1 }
      else if isBlank c then
        if gap.breaks = 0 then
          (cursor.advance 1).passGap? least fuel { gap with blanks := c :: gap.blanks }
        else if c = '\t' && cursor.column < least then none
        else (cursor.advance 1).passGap? least fuel gap
      else some (gap, cursor)

end QueryEngine.Yaml
