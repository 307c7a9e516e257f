import Mathlib.Data.List.Nodup
import QueryEngine.Selection.Inclusion

/-!
# Variables and the literals of their values

A value that is built of null, booleans, texts, whole numbers, lists and objects can be written as a
literal (`Literal.ofJson`). `Document.substitute` writes such literals for the variables that have
a value, and leaves the others. Under the same values the literals of the document come to the same
(`Literal.toJson?_substitute`), and so do its conditions (`Directive.include_substitute`).
-/

namespace QueryEngine

/-- A key that is not there yet is appended at the end. -/
theorem Entries.put_of_not_mem {κ α : Type} [DecidableEq κ] {key : κ} (value : α)
    {entries : List (κ × α)} (h : key ∉ entries.map Prod.fst) :
    put key value entries = entries ++ [(key, value)] := by
  induction entries with
  | nil => rfl
  | cons entry rest ih =>
    rw [List.map_cons, List.mem_cons, not_or] at h
    rw [put, if_neg fun e => h.1 e.symm, ih h.2, List.cons_append]

/-- A map with distinct keys is the map that its entries describe. -/
theorem Entries.ofList_of_nodup {κ α : Type} [DecidableEq κ] {pairs : List (κ × α)}
    (h : (pairs.map Prod.fst).Nodup) : ofList pairs = pairs := by
  suffices hs : ∀ done : List (κ × α), ((done ++ pairs).map Prod.fst).Nodup →
      putAll pairs done = done ++ pairs from hs [] h
  clear h
  induction pairs with
  | nil => simp [putAll]
  | cons pair rest ih =>
    intro done hnodup
    have hnew : pair.1 ∉ done.map Prod.fst := by
      rw [List.map_append, List.map_cons] at hnodup
      exact fun hm => (List.nodup_append.1 hnodup).2.2 _ hm _ (List.mem_cons_self ..) rfl
    have hrest := ih (done ++ [pair]) (by simpa using hnodup)
    rw [putAll, List.foldl_cons, put_of_not_mem _ hnew]
    exact hrest.trans (by simp)

/-! ## Values and their literals -/

namespace Json

mutual

/-- Whether a value is built of null, booleans, texts, whole numbers of 64 bits with sign, lists,
and objects with distinct keys. -/
def isPlain : Json → Bool
  | .null | .bool _ | .string _ => true
  | .number (.int value) => Width.Signed 64 value
  | .number (.float _) => false
  | .array items => itemsArePlain items
  | .object fields => (fields.map Prod.fst).Nodup && fieldsArePlain fields

/-- `isPlain` of every item. -/
def itemsArePlain : List Json → Bool
  | [] => true
  | item :: rest => item.isPlain && itemsArePlain rest

/-- `isPlain` of the value of every entry. -/
def fieldsArePlain : List (String × Json) → Bool
  | [] => true
  | (_, value) :: rest => value.isPlain && fieldsArePlain rest
end

end Json

namespace Literal

mutual

/-- The literal of a value. Doubles, which no plain value has, become null. -/
def ofJson : Json → Literal
  | .null | .number (.float _) => .null
  | .bool value => .bool value
  | .number (.int value) => .int value
  | .string text => .string text
  | .array items => .list (ofItems items)
  | .object fields => .object (ofFields fields)

/-- The literals of items. -/
def ofItems : List Json → List Literal
  | [] => []
  | item :: rest => ofJson item :: ofItems rest

/-- The literals of the values of entries. -/
def ofFields : List (String × Json) → List (String × Literal)
  | [] => []
  | (name, value) :: rest => (name, ofJson value) :: ofFields rest
end

mutual

/-- The literal with the values of variables in their places. A variable without a value stays. -/
def substitute (vars : Fields) : Literal → Literal
  | .variable name => ((vars.lookup name).map ofJson).getD (.variable name)
  | .list items => .list (substituteItems vars items)
  | .object fields => .object (substituteFields vars fields)
  | .null => .null
  | .bool value => .bool value
  | .int value => .int value
  | .float value => .float value
  | .string text => .string text
  | .enum name => .enum name

/-- `substitute` in every item. -/
def substituteItems (vars : Fields) : List Literal → List Literal
  | [] => []
  | item :: rest => item.substitute vars :: substituteItems vars rest

/-- `substitute` in the literal of every field. -/
def substituteFields (vars : Fields) : List (String × Literal) → List (String × Literal)
  | [] => []
  | (name, literal) :: rest => (name, literal.substitute vars) :: substituteFields vars rest
end

mutual

/-- The literal of a plain value comes to the value. -/
theorem toJson?_ofJson (vars : Fields) : ∀ value : Json, value.isPlain →
    (ofJson value).toJson? vars = some value
  | .null, _ | .bool _, _ | .string _, _ => rfl
  | .number (.int value), h => by
    have hsigned : Width.Signed 64 value := by simpa [Json.isPlain] using h
    simp only [ofJson, toJson?, int?, if_pos hsigned]
  | .array items, h => by
    rw [Json.isPlain] at h
    rw [ofJson, toJson?, itemsToJson_ofItems vars items h]
  | .object fields, h => by
    rw [Json.isPlain, Bool.and_eq_true, decide_eq_true_eq] at h
    rw [ofJson, toJson?, fieldsToJson_ofFields vars fields h.2, Entries.ofList_of_nodup h.1]

/-- A list written out as a literal is read back as the list it came from. -/
theorem itemsToJson_ofItems (vars : Fields) : ∀ items : List Json, Json.itemsArePlain items →
    itemsToJson vars (ofItems items) = items
  | [], _ => rfl
  | item :: rest, h => by
    rw [Json.itemsArePlain, Bool.and_eq_true] at h
    rw [ofItems, itemsToJson, toJson?_ofJson vars item h.1, itemsToJson_ofItems vars rest h.2,
      Option.getD_some]

/-- An object written out as a literal is read back as the object it came from. -/
theorem fieldsToJson_ofFields (vars : Fields) : ∀ fields : List (String × Json),
    Json.fieldsArePlain fields → fieldsToJson vars (ofFields fields) = fields
  | [], _ => rfl
  | (_, value) :: rest, h => by
    rw [Json.fieldsArePlain, Bool.and_eq_true] at h
    simp only [ofFields, fieldsToJson, toJson?_ofJson vars value h.1,
      fieldsToJson_ofFields vars rest h.2]
end

end Literal

/-- The values of all variables are plain. -/
def PlainVars (vars : Fields) : Prop := ∀ entry ∈ vars, entry.2.isPlain

instance (vars : Fields) : Decidable (PlainVars vars) :=
  inferInstanceAs (Decidable (∀ entry ∈ vars, entry.2.isPlain = true))

/-- What a plain variable map holds under a name can be written as a literal. -/
theorem PlainVars.isPlain {vars : Fields} (h : PlainVars vars) {name : String} {value : Json}
    (hl : vars.lookup name = some value) : value.isPlain := by
  obtain ⟨before, after, rfl, -⟩ := List.lookup_eq_some_iff.1 hl
  exact h (name, value) (by simp)

namespace Literal

mutual

/-- A literal comes to the same with the values of variables in their places. -/
theorem toJson?_substitute {vars : Fields} (h : PlainVars vars) : ∀ literal : Literal,
    (literal.substitute vars).toJson? vars = literal.toJson? vars
  | .variable name => by
    rw [substitute]
    cases hl : vars.lookup name with
    | none => rfl
    | some value =>
      rw [toJson?, hl]
      exact toJson?_ofJson vars value (h.isPlain hl)
  | .list items => by rw [substitute, toJson?, toJson?, itemsToJson_substituteItems h items]
  | .object fields => by rw [substitute, toJson?, toJson?, fieldsToJson_substituteFields h fields]
  | .null | .bool _ | .int _ | .float _ | .string _ | .enum _ => rfl

/-- Writing the variables of a list literal in does not change what the list is read as. -/
theorem itemsToJson_substituteItems {vars : Fields} (h : PlainVars vars) :
    ∀ items : List Literal, itemsToJson vars (substituteItems vars items) = itemsToJson vars items
  | [] => rfl
  | item :: rest => by
    rw [substituteItems, itemsToJson, itemsToJson, toJson?_substitute h item,
      itemsToJson_substituteItems h rest]

/-- Writing the variables of an object literal in does not change what the object is read as. -/
theorem fieldsToJson_substituteFields {vars : Fields} (h : PlainVars vars) :
    ∀ fields : List (String × Literal),
      fieldsToJson vars (substituteFields vars fields) = fieldsToJson vars fields
  | [] => rfl
  | (_, literal) :: rest => by
    simp only [substituteFields, fieldsToJson, toJson?_substitute h literal,
      fieldsToJson_substituteFields h rest]
end

end Literal

/-! ## Documents -/

section
variable (vars : Fields)

/-- The directive with the values of variables in their places. -/
def Directive.substitute (directive : Directive) : Directive :=
  { directive with arguments := Literal.substituteFields vars directive.arguments }

/-- The field with the values of variables in their places. -/
def Field.substitute (field : Field) : Field :=
  { field with
    arguments := Literal.substituteFields vars field.arguments
    directives := field.directives.map (Directive.substitute vars) }

/-- The inline fragment with the values of variables in their places. -/
def InlineFragment.substitute (fragment : InlineFragment) : InlineFragment :=
  { fragment with directives := fragment.directives.map (Directive.substitute vars) }

/-- The fragment spread with the values of variables in their places. -/
def FragmentSpread.substitute (spread : FragmentSpread) : FragmentSpread :=
  { spread with directives := spread.directives.map (Directive.substitute vars) }

mutual

/-- The selection with the values of variables in their places. -/
def Selection.substitute : Selection → Selection
  | .field field selections => .field (field.substitute vars) (substituteSelections selections)
  | .inlineFragment fragment selections =>
    .inlineFragment (fragment.substitute vars) (substituteSelections selections)
  | .fragmentSpread spread => .fragmentSpread (spread.substitute vars)

/-- `Selection.substitute` of each selection. -/
def substituteSelections : List Selection → List Selection
  | [] => []
  | selection :: rest => selection.substitute :: substituteSelections rest
end

/-- The fragment with the values of variables in their places. -/
def Fragment.substitute (fragment : Fragment) : Fragment :=
  { fragment with selections := substituteSelections vars fragment.selections }

/-- The operation with the values of variables in their places. -/
def Operation.substitute (operation : Operation) : Operation :=
  { operation with selections := substituteSelections vars operation.selections }

/-- The document with the values of variables in their places, in all arguments of its fields and
directives. -/
def Document.substitute (document : Document) : Document where
  operations := document.operations.map (Operation.substitute vars)
  fragments := document.fragments.map (Fragment.substitute vars)

/-- The guard with the values of variables in their places. -/
def Guard.substitute : Guard → Guard
  | .field f => .field (f.substitute vars)
  | .inlineFragment fragment => .inlineFragment (fragment.substitute vars)
  | .fragmentSpread spread => .fragmentSpread (spread.substitute vars)

/-- The occurrence with the values of variables in their places. -/
def Occurrence.substitute (occurrence : Occurrence) : Occurrence :=
  ⟨occurrence.field.substitute vars, occurrence.guards.map (Guard.substitute vars)⟩

/-- Substitution works on each selection of a set by itself. -/
theorem substituteSelections_eq (selections : List Selection) :
    substituteSelections vars selections = selections.map (Selection.substitute vars) := by
  induction selections with
  | nil => rfl
  | cons selection rest ih => rw [substituteSelections, ih, List.map_cons]

@[simp] theorem Field.key_substitute (field : Field) : (field.substitute vars).key = field.key :=
  rfl

@[simp] theorem Guard.directives_substitute (guard : Guard) :
    (guard.substitute vars).directives = guard.directives.map (Directive.substitute vars) := by
  cases guard <;> rfl

/-- Looking a fragment up and substituting in it can be done in either order. -/
theorem Document.fragment?_substitute (document : Document) (name : String) :
    (document.substitute vars).fragment? name
      = (document.fragment? name).map (Fragment.substitute vars) := by
  rw [fragment?, fragment?, substitute, List.find?_map]
  rfl

/-- Looking an operation up and substituting in it can be done in either order. -/
theorem Document.operation?_substitute (document : Document) (name : Option String) :
    (document.substitute vars).operation? name
      = (document.operation? name).map (Operation.substitute vars) := by
  cases name with
  | some name =>
    rw [operation?, operation?, substitute, List.find?_map]
    rfl
  | none =>
    rw [operation?, operation?, substitute]
    match document.operations with
    | [] => rfl
    | [operation] => rfl
    | _ :: _ :: _ => rfl

/-- Looking a field of an object literal up and substituting in it can be done in either order. -/
theorem Literal.lookup_substituteFields (name : String) (fields : List (String × Literal)) :
    (substituteFields vars fields).lookup name
      = (fields.lookup name).map (Literal.substitute vars) := by
  induction fields with
  | nil => rfl
  | cons field rest ih =>
    obtain ⟨key, literal⟩ := field
    rw [substituteFields, List.lookup_cons, List.lookup_cons]
    split
    · rfl
    · exact ih

end

/-! ## What comes of conditions -/

section
variable (vars : Fields)

/-- Only a boolean counts as the value of a condition, be it that of a variable or a literal. -/
theorem Condition.eval?_substitute (directive : Directive) :
    (ofDirective? (directive.substitute vars)).bind (eval? vars)
      = (ofDirective? directive).bind (eval? vars) := by
  unfold ofDirective?
  rw [Directive.substitute, Literal.lookup_substituteFields]
  cases directive.arguments.lookup "if" with
  | none => rfl
  | some literal =>
    rw [Option.map_some]
    match literal with
    | .variable name =>
      rw [Literal.substitute]
      cases hl : vars.lookup name with
      | none => rfl
      | some value =>
        match value with
        | .null | .bool _ | .number (.int _) | .number (.float _) | .string _ | .array _
        | .object _ => simp [Literal.ofJson, eval?, hl, Json.asBool?]
    | .null | .bool _ | .int _ | .float _ | .string _ | .enum _ | .list _ | .object _ => rfl

/-- A condition that names a variable has the same outcome with the value of the variable written
in. -/
theorem Condition.holds_substitute (directives : List Directive) (name : String) (absent : Bool) :
    holds (directives.map (Directive.substitute vars)) name absent vars
      = holds directives name absent vars := by
  have hfound : (directives.map (Directive.substitute vars)).find? (·.name == name)
      = (directives.find? (·.name == name)).map (Directive.substitute vars) := by
    rw [List.find?_map]
    rfl
  rw [holds, holds, hfound]
  cases directives.find? (·.name == name) with
  | none => rfl
  | some directive => exact congrArg (Option.getD · absent) (eval?_substitute vars directive)

/-- Directives say the same with the values of variables in their places. -/
theorem Directive.include_substitute (directives : List Directive) :
    Directive.include (directives.map (Directive.substitute vars)) vars
      = Directive.include directives vars := by
  rw [Directive.include, Directive.include, Condition.holds_substitute,
    Condition.holds_substitute]

/-- An occurrence is included with the variables written in exactly if it was included before. -/
theorem Occurrence.isIncluded_substitute (occurrence : Occurrence) :
    (occurrence.substitute vars).isIncluded vars = occurrence.isIncluded vars := by
  simp [isIncluded, substitute, Field.substitute, Directive.include_substitute,
    Function.comp_def]

end

end QueryEngine
