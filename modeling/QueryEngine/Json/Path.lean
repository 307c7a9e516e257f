import QueryEngine.Json
import QueryEngine.Text.Numeral

/-!
# Paths into JSON values

A path is a list of keys and indices. `Json.at?` reads the value at a path, `Json.setAt?` replaces
it where it exists. The text of a path has a slash before each step; `Path.ofText` reads it back,
taking a step that reads as a number below 2 ^ 64 for an index.
-/

namespace QueryEngine

/-- One step of a path. -/
inductive Segment where
  /-- A position in an array. -/
  | index (index : Nat)
  /-- A key of an object. -/
  | key (name : String)
deriving DecidableEq, Inhabited, Repr

/-- The steps from a value to one of its parts, outermost first. -/
abbrev Path := List Segment

namespace Segment

/-- An index in decimal, a key as it is. -/
def text : Segment → String
  | .index i => String.ofList (Numeral.decimal i)
  | .key name => name

/-- The step that a piece of text names: an index if it reads as one, else a key. -/
def ofChars (piece : List Char) : Segment :=
  match Numeral.readUnsigned? piece with
  | some i => .index i
  | none => .key (String.ofList piece)

/-- A step as JSON: a whole number or a string. -/
def toJson : Segment → Json
  | .index i => .ofNat i
  | .key name => .string name

/-- The step that a JSON value stands for. -/
def ofJson? : Json → Option Segment
  | .string name => some (.key name)
  | value => value.asUnsigned?.map .index

end Segment

namespace Path

/-- Each step behind a slash. -/
def text (path : Path) : String :=
  String.join (path.map fun segment => "/" ++ segment.text)

/-- The pieces between the slashes of a text, empty ones included. -/
def pieces : List Char → List (List Char)
  | [] => [[]]
  | c :: rest =>
    if c = '/' then [] :: pieces rest
    else
      match pieces rest with
      | [] => [[c]]
      | piece :: others => (c :: piece) :: others

/-- The path that a text describes. Empty pieces do not count. -/
def ofText (text : String) : Path :=
  ((pieces text.toList).filter (! ·.isEmpty)).map Segment.ofChars

/-- A path as a JSON array. -/
def toJson (path : Path) : Json :=
  .array (path.map Segment.toJson)

/-- The path that a JSON array of keys and indices describes. -/
def ofJson? : Json → Option Path
  | .array items => items.mapM Segment.ofJson?
  | _ => none

end Path

namespace Json

/-- The value at `path`, if every step of the path exists. -/
def at? : Json → Path → Option Json
  | value, [] => some value
  | .object fields, .key name :: rest => (fields.lookup name).bind (at? · rest)
  | .array items, .index i :: rest => items[i]?.bind (at? · rest)
  | _, _ :: _ => none

/-- Replaces the value at `path`, if every step of the path exists. Keys, their order and the
lengths of arrays stay as they are. -/
def setAt? : Json → Path → Json → Option Json
  | _, [], new => some new
  | .object fields, .key name :: rest, new =>
    (fields.lookup name).bind fun old =>
      (setAt? old rest new).map fun part => .object (Entries.put name part fields)
  | .array items, .index i :: rest, new =>
    items[i]?.bind fun old =>
      (setAt? old rest new).map fun part => .array (items.set i part)
  | _, _ :: _, _ => none

end Json

end QueryEngine
