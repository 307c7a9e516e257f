import QueryEngine.Proofs.Execution.Course
import QueryEngine.Proofs.Execution.Relabel
import QueryEngine.Proofs.Selection.Substitution

/-!
# Variables behave as literals

A request has the same response when the values of its variables are written into the document
(`executeRequest_substitute`): the trees differ in their occurrences only, and no execution can tell
those apart under the same values.
-/

namespace QueryEngine

variable {W O C T : Type}

/-- Arguments come to the same with the values of variables in their places. -/
theorem Descriptor.overlay_substituteFields {vars : Fields} (h : PlainVars vars)
    (literals : List (String × Literal)) (defaults : Fields) :
    overlay defaults (Literal.substituteFields vars literals) vars
      = overlay defaults literals vars := by
  induction literals generalizing defaults with
  | nil => rfl
  | cons first rest ih =>
    obtain ⟨name, literal⟩ := first
    unfold overlay at ih ⊢
    rw [Literal.substituteFields, List.foldl_cons, List.foldl_cons, ih]
    simp only [Literal.toJson?_substitute h]

namespace Execution

/-- An execution cannot tell variables from the literals of their values. -/
theorem unseen_substitute {vars : Fields} (h : PlainVars vars) :
    Unseen vars (List.map (Occurrence.substitute vars)) :=
  .map (Occurrence.isIncluded_substitute vars) fun defaults occurrence =>
    Descriptor.overlay_substituteFields h occurrence.field.arguments defaults

/-- Variables behave as literals: a request has the same response with the values of its variables
written into the document, where they are plain. Variables without a value stay in it. -/
theorem executeRequest_substitute {setting : Setting W O C T} (h : PlainVars setting.vars)
    (document : Document) (name : Option String) (root : O) (fuel : Nat) (world : W) :
    executeRequest setting (document.substitute setting.vars) name root fuel world
      = executeRequest setting document name root fuel world := by
  rw [executeRequest, executeRequest, setting.registry.selectionTree_substitute]
  cases setting.registry.selectionTree document name with
  | error error => rfl
  | ok tree => exact execute_relabel (unseen_substitute h) tree root fuel world

/-- A host with one field, which answers with its arguments, and the values of four variables. -/
def echoSetting : Setting Unit Unit Unit Unit :=
  let bare : Setting Unit Unit Unit Unit := bareSetting fun _ => .ready (.ok .null)
  let echo : FieldDef := ⟨"echo", .named "Any", []⟩
  { bare with
    host := { bare.host with
      call := fun _ _ arguments world => (some (.ok (.value (.object arguments))), world) }
    registry :=
      { schema := ⟨[⟨"Any", .scalar⟩, ⟨"Query", .object [] [echo]⟩], "Query", none, none⟩ }
    vars :=
      [("range", .object [("from", .ofNat 1), ("to", .null)]), ("word", .string "yes"),
       ("no", .bool false), ("list", .array [.bool true])] }

/-- Variables within lists and objects and in conditions, with a value, without a value, and with
one that is no boolean. -/
def echoDocument : Document where
  operations :=
    [⟨.query, none,
      [.field ⟨0, none, "echo",
          [("items", .list [.variable "range", .variable "absent", .variable "list"]),
           ("where", .object [("range", .variable "range"), ("gone", .variable "absent")]),
           ("gone", .variable "absent")],
          [⟨"include", [("if", .variable "word")]⟩, ⟨"skip", [("if", .variable "no")]⟩],
          "Query", .named "Any"⟩ [],
       .field ⟨1, some "left", "echo", [], [⟨"include", [("if", .variable "no")]⟩], "Query",
          .named "Any"⟩ []]⟩]
  fragments := []

/-- The values of the variables reach the host, be they written as variables or as literals. -/
theorem executeRequest_substitute_echoDocument :
    PlainVars echoSetting.vars
      ∧ executeRequest echoSetting (echoDocument.substitute echoSetting.vars) none () 1 ()
        = executeRequest echoSetting echoDocument none () 1 ()
      ∧ (executeRequest echoSetting echoDocument none () 1 ()).bind (fun answer => answer.1.data)
        = some (.object [("echo", .object
          [("items", .array
            [.object [("from", .ofNat 1), ("to", .null)], .null, .array [.bool true]]),
           ("where", .object [("range", .object [("from", .ofNat 1), ("to", .null)])])])]) :=
  ⟨by decide, executeRequest_substitute (by decide) echoDocument none () 1 (), rfl⟩

end Execution

end QueryEngine
