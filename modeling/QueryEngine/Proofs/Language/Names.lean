import Mathlib.Data.List.TakeWhile
import QueryEngine.Proofs.Json.Printed
import QueryEngine.Proofs.Language.Reading
import QueryEngine.Proofs.Selection.Fields

/-!
# Names in documents

The words of a text that are names consist of letters, digits and underscores and do not begin with
a digit (`Token.isWellNamed_of_scan?`). Reading makes up no words, so in a document that is read
from a text every field has a name for its key (`Document.allFields_of_ofText?`).
-/

namespace QueryEngine

/-- The key of the field is a name. -/
def Field.KeyIsName (field : Field) : Prop := IsName field.key

/-! ## Words -/

namespace Token

/-- If the word is a name, it is spelled as one. -/
def IsWellNamed : Token → Prop
  | name text => IsName text
  | punctuator _ | int _ | float _ | string _ => True

/-- A number token has no name to check, so it is well named. -/
theorem isWellNamed_of_number? {cs rest : List Char} {token : Token}
    (h : number? cs = some (token, rest)) : token.IsWellNamed := by
  unfold number? at h
  dsimp only at h
  simp only [Option.ite_none_left_eq_some, Option.bind_eq_bind, Option.bind_eq_some_iff] at h
  obtain ⟨-, -, exponent, -, -, h⟩ := h
  rcases ite_eq_iff.1 h with ⟨-, hfloat⟩ | ⟨-, hint⟩
  · cases hfloat
    trivial
  · cases hint
    trivial

/-- The scanner only appends well-named tokens to the ones it already holds. -/
theorem isWellNamed_of_scanFrom? {fuel : Nat} {acc tokens : List Token} {cs : List Char}
    (h : scanFrom? fuel acc cs = some tokens) (ha : ∀ token ∈ acc, token.IsWellNamed) :
    ∀ token ∈ tokens, token.IsWellNamed := by
  induction fuel generalizing acc cs with
  | zero => cases h
  | succ fuel ih =>
    have hnext : ∀ {token : Token} {cs : List Char},
        scanFrom? fuel (token :: acc) cs = some tokens → token.IsWellNamed →
          ∀ token ∈ tokens, token.IsWellNamed :=
      fun h ht => ih h (List.forall_mem_cons.2 ⟨ht, ha⟩)
    unfold scanFrom? at h
    split at h
    · cases h
      exact fun token ht => ha token (List.mem_reverse.1 ht)
    · exact ih h ha
    · exact hnext h trivial
    · cases h
    · obtain ⟨⟨text, behind⟩, -, h⟩ := Option.bind_eq_some_iff.1 h
      exact hnext h trivial
    · rename_i c rest _ _ _ _
      split at h
      · exact ih h ha
      split at h
      · exact hnext h trivial
      split at h
      · rename_i hstart
        refine hnext h ⟨c, rest.takeWhile isNamePart, String.toList_ofList, hstart, ?_⟩
        exact fun d hd => List.mem_takeWhile_imp hd
      · obtain ⟨⟨token, behind⟩, hnumber, h⟩ := Option.bind_eq_some_iff.1 h
        exact hnext h (isWellNamed_of_number? hnumber)

/-- The names among the words of a text are spelled as such. -/
theorem isWellNamed_of_scan? {text : String} {tokens : List Token} (h : scan? text = some tokens) :
    ∀ token ∈ tokens, token.IsWellNamed :=
  isWellNamed_of_scanFrom? h (List.forall_mem_nil _)

end Token

/-! ## Keys -/

/-- The key of a field that is read is one of the words, be it the field's name or its alias. -/
theorem Grammar.composes_names (typing : Typing) :
    Composes Token.IsWellNamed typing fun _ => Selection.AllFields Field.KeyIsName where
  field _ _ hkey _ hinner := .field hkey hinner
  inlineFragment _ _ _ hinner := .inlineFragment hinner
  fragmentSpread _ _ := .fragmentSpread

/-- In a document that is read from a text all fields have names for keys. -/
theorem Document.allFields_of_ofText? {typing : Grammar.Typing}
    {root : OperationKind → Option String} {text : String} {document : Document}
    (h : Document.ofText? typing root text = some document) :
    document.AllFields Field.KeyIsName := by
  have hnames := Grammar.throughout_of_ofText? (Grammar.composes_names typing)
    (fun _ => Token.isWellNamed_of_scan?) h
  exact ⟨fun operation ho => (hnames.operations operation ho).elim fun _ h => h.2, hnames.fragments⟩

end QueryEngine
