import QueryEngine.Error
import QueryEngine.Text.Base64
import QueryEngine.Text.Numeral
import QueryEngine.Text.Utf8

/-!
# Cursors

The opaque text of a position in a collection: the Base64 text of a marker and the position in
decimal. `decode` accepts the numeral with a plus sign or leading zeros too.
-/

namespace QueryEngine.Cursor

/-- What stands before the position. -/
def marker : List Char := "cursor:".toList

/-- The cursor of a position. -/
def encode (position : Nat) : String :=
  String.ofList (Base64.encode (Utf8.octets (String.ofList (marker ++ Numeral.decimal position))))

/-- The rest of a list behind a given beginning. -/
def dropMarker? : List Char → List Char → Option (List Char)
  | [], cs => some cs
  | m :: ms, c :: cs => if m = c then dropMarker? ms cs else none
  | _ :: _, [] => none

/-- The position of a cursor, if the text is one. -/
def decode? (cursor : String) : Option Nat := do
  let octets ← Base64.decode cursor.toList
  let text ← Utf8.text? octets
  let rest ← dropMarker? marker text.toList
  Numeral.readUnsigned? rest

/-- The position of a cursor. -/
def decode (cursor : String) : Except FieldError Nat :=
  match decode? cursor with
  | some position => .ok position
  | none => .error (.invalid ("invalid cursor '" ++ cursor ++ "'"))

end QueryEngine.Cursor
