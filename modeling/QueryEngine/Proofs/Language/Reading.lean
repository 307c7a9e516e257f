import QueryEngine.Proofs.Selection.Collect

/-!
# Reading documents

A reader takes words off the front and makes up none, and for every field it asks the schema for its
type. So what is read is known from the words and from what the readers of the parts read
(`Grammar.Keeps`). The grammar is gone through once, for any property that selections have if their
parts have it (`Grammar.Composes`): the documents that are read have it throughout
(`Grammar.throughout_of_ofText?`). In particular a document that is read for a schema says of every
field what the schema says of it (`Schema.fits_of_document?`).
-/

namespace QueryEngine

namespace Grammar

/-- From words of one sort the reader reads something with the property, and it leaves words of this
sort. -/
def Keeps {α : Type} (sort : Token → Prop) (reader : Grammar α) (P : α → Prop) : Prop :=
  ∀ tokens value rest, (∀ token ∈ tokens, sort token) →
    reader.run tokens = some (value, rest) → P value ∧ ∀ token ∈ rest, sort token

variable {sort : Token → Prop}

section
variable {α β : Type} {P : α → Prop} {Q : β → Prop}

/-- What reads nothing keeps the words and yields its value. -/
theorem keeps_pure {value : α} (h : P value) : Keeps sort (pure value) P := by
  intro tokens other rest ht hr
  cases hr
  exact ⟨h, ht⟩

/-- What never succeeds keeps whatever one likes. -/
theorem keeps_failure : Keeps sort (failure : Grammar α) P := by
  intro tokens value rest _ hr
  cases hr

/-- A part that is looked up is one that is found. -/
theorem keeps_lift (value? : Option α) :
    Keeps sort (liftM value? : Grammar α) (value? = some ·) := by
  intro tokens value rest ht hr
  cases value? with
  | none => cases hr
  | some found =>
    cases hr
    exact ⟨rfl, ht⟩

/-- Readers keep in sequence what the second one keeps after any value of the first. -/
theorem Keeps.bind {reader : Grammar α} {next : α → Grammar β} (h : Keeps sort reader P)
    (hn : ∀ value, P value → Keeps sort (next value) Q) : Keeps sort (reader >>= next) Q := by
  intro tokens value rest ht hr
  rw [StateT.run_bind] at hr
  obtain ⟨⟨first, mid⟩, hf, hr⟩ := Option.bind_eq_some_iff.1 hr
  obtain ⟨hfirst, hmid⟩ := h tokens first mid ht hf
  exact hn first hfirst mid value rest hmid hr

/-- Nothing need be known of a part that does not matter. -/
theorem Keeps.andThen {reader : Grammar α} {next : α → Grammar β} (h : Keeps sort reader P)
    (hn : ∀ value, Keeps sort (next value) Q) : Keeps sort (reader >>= next) Q :=
  h.bind fun value _ => hn value

/-- Of what was read no more need be said than that the words are kept. -/
theorem Keeps.any {reader : Grammar α} (h : Keeps sort reader P) :
    Keeps sort reader fun _ => True :=
  fun tokens value rest ht hr => ⟨trivial, (h tokens value rest ht hr).2⟩

/-! ### One word -/

/-- Looking at the next word keeps it. -/
theorem keeps_peek : Keeps sort peek fun _ => True := by
  intro tokens value rest ht hr
  cases hr
  exact ⟨trivial, ht⟩

/-- Counting the words keeps them. -/
theorem keeps_remaining : Keeps sort remaining fun _ => True := by
  intro tokens value rest ht hr
  cases hr
  exact ⟨trivial, ht⟩

/-- The next word is one of the sort, and so are those after it. -/
theorem keeps_next : Keeps sort next sort := by
  intro tokens value rest ht hr
  cases tokens with
  | nil => cases hr
  | cons token tokens =>
    cases hr
    exact List.forall_mem_cons.1 ht

/-- Looking for a punctuator keeps the words. -/
theorem keeps_atPunctuator (text : String) : Keeps sort (atPunctuator text) fun _ => True := by
  refine keeps_peek.andThen fun token? => ?_
  split <;> exact keeps_pure trivial

/-- Looking for a name keeps the words. -/
theorem keeps_atName (text : String) : Keeps sort (atName text) fun _ => True := by
  refine keeps_peek.andThen fun token? => ?_
  split <;> exact keeps_pure trivial

/-- A punctuator that must be there is taken off. -/
theorem keeps_punctuator (text : String) : Keeps sort (punctuator text) fun _ => True := by
  refine keeps_next.andThen fun token => ?_
  split
  · split
    · exact keeps_pure trivial
    · exact keeps_failure
  · exact keeps_failure

/-- A punctuator that may be there is taken off if it is. -/
theorem keeps_optionalPunctuator (text : String) :
    Keeps sort (optionalPunctuator text) fun _ => True := by
  refine (keeps_atPunctuator text).andThen fun present => ?_
  split
  · exact keeps_next.andThen fun _ => keeps_pure trivial
  · exact keeps_pure trivial

/-- A name that is read is one of the words. -/
theorem keeps_name : Keeps sort name fun text => sort (.name text) := by
  refine keeps_next.bind fun token ht => ?_
  split
  · exact keeps_pure ht
  · exact keeps_failure

/-- A keyword that must be there is taken off. -/
theorem keeps_keyword (text : String) : Keeps sort (keyword text) fun _ => True := by
  refine keeps_name.andThen fun word => ?_
  split
  · exact keeps_pure trivial
  · exact keeps_failure

/-! ### Repeated parts -/

/-- Of parts up to a closing word each one is as the reader of the part says. -/
theorem Keeps.upTo {part : Grammar α} (h : Keeps sort part P) (close : String) (fuel : Nat) :
    Keeps sort (upTo close part fuel) fun values => ∀ value ∈ values, P value := by
  induction fuel with
  | zero => exact keeps_failure
  | succ fuel ih =>
    refine (keeps_optionalPunctuator close).andThen fun closed => ?_
    split
    · exact keeps_pure (List.forall_mem_nil _)
    · refine h.bind fun first hf => ih.bind fun rest hr => keeps_pure ?_
      exact List.forall_mem_cons.2 ⟨hf, hr⟩

/-- So it is with parts between an opening and a closing word. -/
theorem Keeps.enclosed {part : Grammar α} (h : Keeps sort part P) (opening close : String) :
    Keeps sort (enclosed opening close part) fun values => ∀ value ∈ values, P value := by
  refine (keeps_punctuator opening).andThen fun _ => keeps_remaining.andThen fun fuel => ?_
  refine (h.upTo close _).bind fun parts hp => ?_
  split
  · exact keeps_failure
  · exact keeps_pure hp

/-- And with parts that may be left out together with the words around them. -/
theorem Keeps.optionalEnclosed {part : Grammar α} (h : Keeps sort part P) (opening close : String) :
    Keeps sort (optionalEnclosed opening close part) fun values => ∀ value ∈ values, P value := by
  refine (keeps_atPunctuator opening).andThen fun present => ?_
  split
  · exact h.enclosed opening close
  · exact keeps_pure (List.forall_mem_nil _)

end

/-! ### Values, directives and types -/

/-- A literal is made of words that are taken off, whatever it is. -/
theorem keeps_literal (fuel : Nat) : Keeps sort (literal fuel) fun _ => True := by
  induction fuel with
  | zero => exact keeps_failure
  | succ fuel ih =>
    refine keeps_next.andThen fun token => ?_
    split
    · exact keeps_pure trivial
    · exact keeps_pure trivial
    · exact keeps_pure trivial
    · split
      · exact keeps_pure trivial
      split
      · exact keeps_pure trivial
      split
      · exact keeps_pure trivial
      · exact keeps_pure trivial
    · split
      · exact keeps_name.andThen fun _ => keeps_pure trivial
      split
      · exact keeps_remaining.andThen fun _ => (ih.upTo _ _).andThen fun _ => keeps_pure trivial
      split
      · have hfield : Keeps sort (do
            let key ← name
            punctuator ":"
            return (key, ← literal fuel)) fun _ => True :=
          keeps_name.andThen fun _ => (keeps_punctuator ":").andThen fun _ =>
            ih.andThen fun _ => keeps_pure trivial
        exact keeps_remaining.andThen fun _ => (hfield.upTo _ _).andThen fun _ => keeps_pure trivial
      · exact keeps_failure

/-- So is a value. -/
theorem keeps_value : Keeps sort value fun _ => True :=
  keeps_remaining.andThen fun _ => keeps_literal _

/-- So is an argument with its value. -/
theorem keeps_argument : Keeps sort argument fun _ => True :=
  keeps_name.andThen fun _ => (keeps_punctuator ":").andThen fun _ =>
    keeps_value.andThen fun _ => keeps_pure trivial

/-- So are arguments in parentheses. -/
theorem keeps_arguments : Keeps sort arguments fun _ => True :=
  (keeps_argument.optionalEnclosed "(" ")").any

/-- So are directives, one after the other. -/
theorem keeps_directivesFrom (fuel : Nat) : Keeps sort (directivesFrom fuel) fun _ => True := by
  induction fuel with
  | zero => exact keeps_failure
  | succ fuel ih =>
    refine (keeps_optionalPunctuator "@").andThen fun present => ?_
    split
    · exact keeps_name.andThen fun _ => keeps_arguments.andThen fun _ => ih.andThen fun _ =>
        keeps_pure trivial
    · exact keeps_pure trivial

/-- So are the directives of a selection. -/
theorem keeps_directives : Keeps sort directives fun _ => True :=
  keeps_remaining.andThen fun _ => keeps_directivesFrom _

/-- So is a reference to a type, with the marks behind it. -/
theorem keeps_typeRefFrom (fuel : Nat) : Keeps sort (typeRefFrom fuel) fun _ => True := by
  induction fuel with
  | zero => exact keeps_failure
  | succ fuel ih =>
    have hend : ∀ type : TypeRef, Keeps sort (do
        if ← optionalPunctuator "!" then return type.nonNull else return type) fun _ => True := by
      refine fun type => (keeps_optionalPunctuator "!").andThen fun marked => ?_
      split <;> exact keeps_pure trivial
    refine (keeps_optionalPunctuator "[").andThen fun listed => ?_
    dsimp only
    split
    · exact ih.andThen fun _ => (keeps_punctuator "]").andThen fun _ => hend _
    · exact keeps_name.andThen fun _ => hend _

/-- So is the reference to a type as a whole. -/
theorem keeps_typeRef : Keeps sort typeRef fun _ => True :=
  keeps_remaining.andThen fun _ => keeps_typeRefFrom _

/-- So is the definition of a variable. -/
theorem keeps_variableDefinition : Keeps sort variableDefinition fun _ => True := by
  refine (keeps_punctuator "$").andThen fun _ => keeps_name.andThen fun _ => ?_
  refine (keeps_punctuator ":").andThen fun _ => keeps_typeRef.andThen fun _ => ?_
  refine (keeps_optionalPunctuator "=").andThen fun defaulted => ?_
  dsimp only
  split
  · exact keeps_value.andThen fun _ => keeps_directives.andThen fun _ => keeps_pure trivial
  · exact keeps_directives.andThen fun _ => keeps_pure trivial

/-! ## Selections -/

/-- The selections on a type that have the property are those whose parts have it, if fields are as
`typing` knows them and keys are among the words. -/
structure Composes (sort : Token → Prop) (typing : Typing) (P : String → Selection → Prop) :
    Prop where
  field : ∀ (field : Field) {inner : List Selection}, sort (.name field.key) →
    typing field.owner field.name = some field.type →
    (∀ selection ∈ inner, P field.type.inner selection) → P field.owner (.field field inner)
  inlineFragment : ∀ (owner : String) (fragment : InlineFragment) {inner : List Selection},
    (∀ selection ∈ inner, P (fragment.condition?.getD owner) selection) →
    P owner (.inlineFragment fragment inner)
  fragmentSpread : ∀ (owner : String) (spread : FragmentSpread), P owner (.fragmentSpread spread)

/-- The selections of the document have the property on the types that they are made on. -/
structure Throughout (root : OperationKind → Option String) (P : String → Selection → Prop)
    (document : Document) : Prop where
  operations : ∀ operation ∈ document.operations, ∃ owner, root operation.kind = some owner
    ∧ ∀ selection ∈ operation.selections, P owner selection
  fragments : ∀ fragment ∈ document.fragments,
    ∀ selection ∈ fragment.selections, P fragment.condition selection

section
variable {typing : Typing} {P : String → Selection → Prop} (hp : Composes sort typing P)
include hp

/-- What is read of an inline fragment behind its condition. -/
theorem keeps_inlineFragment {part : String → Grammar Selection}
    (h : ∀ owner, Keeps sort (part owner) (P owner)) (id : Nat) (owner : String)
    (condition? : Option String) : Keeps sort (do
      let directives ← directives
      let selections ← Grammar.enclosed "\x7b" "\x7d" (part (condition?.getD owner))
      return .inlineFragment { id, condition?, directives } selections) (P owner) := by
  refine keeps_directives.andThen fun _ => ((h _).enclosed _ _).bind fun inner hi => ?_
  exact keeps_pure (hp.inlineFragment owner _ hi)

/-- What is read of a field behind its alias and its name, of which one is the key. -/
theorem keeps_field {part : String → Grammar Selection}
    (h : ∀ owner, Keeps sort (part owner) (P owner)) (id : Nat) (owner : String)
    {names : Option String × String} (hkey : sort (.name (names.1.getD names.2))) :
    Keeps sort (do
      let arguments ← arguments
      let directives ← directives
      let type ← (typing owner names.2 : Option TypeRef)
      let selections ← Grammar.optionalEnclosed "\x7b" "\x7d" (part type.inner)
      return .field
        { id, alias? := names.1, name := names.2, arguments, directives, owner, type }
        selections) (P owner) := by
  refine keeps_arguments.andThen fun arguments => keeps_directives.andThen fun directives => ?_
  refine (keeps_lift _).bind fun type ht => ?_
  refine ((h _).optionalEnclosed _ _).bind fun inner hi => keeps_pure ?_
  exact hp.field { id, alias? := names.1, name := names.2, arguments, directives, owner, type }
    hkey ht hi

/-- A selection has the property because its parts have it. The induction is on the fuel, which
counts the nesting of selection sets. -/
theorem keeps_selection (fuel : Nat) (owner : String) :
    Keeps sort (selection typing fuel owner) (P owner) := by
  induction fuel generalizing owner with
  | zero => exact keeps_failure
  | succ fuel ih =>
    refine keeps_remaining.andThen fun id => ?_
    refine (keeps_optionalPunctuator "...").andThen fun spread => ?_
    split
    · refine (keeps_atName "on").andThen fun _ => (keeps_atPunctuator "@").andThen fun _ => ?_
      refine (keeps_atPunctuator "\x7b").andThen fun _ => ?_
      dsimp only
      split
      · refine (keeps_atName "on").andThen fun conditional => ?_
        split
        · refine (keeps_keyword "on").andThen fun _ => keeps_name.andThen fun name => ?_
          exact keeps_inlineFragment hp ih id owner (some name)
        · exact keeps_inlineFragment hp ih id owner none
      · refine keeps_name.andThen fun fragment => keeps_directives.andThen fun directives => ?_
        exact keeps_pure (hp.fragmentSpread owner _)
    · refine keeps_name.bind fun first hfirst => ?_
      refine (keeps_optionalPunctuator ":").andThen fun aliased => ?_
      dsimp only
      split
      · refine keeps_name.andThen fun name => ?_
        exact keeps_field hp ih id owner hfirst
      · exact keeps_field hp ih id owner hfirst

/-- So have all selections between braces. -/
theorem keeps_selectionSet (owner : String) :
    Keeps sort (selectionSet typing owner) fun selections =>
      ∀ selection ∈ selections, P owner selection :=
  keeps_remaining.andThen fun _ => (keeps_selection hp _ owner).enclosed _ _

/-! ## Documents -/

variable {root : OperationKind → Option String} {document : Document}

/-- One more operation on a root type. -/
theorem keeps_operation (h : Throughout root P document) (kind : OperationKind)
    (name? : Option String) : Keeps sort (do
      let owner ← (root kind : Option String)
      let selections ← selectionSet typing owner
      return { document with operations := document.operations ++ [⟨kind, name?, selections⟩] })
      (Throughout root P) := by
  refine (keeps_lift _).bind fun owner ho => ?_
  refine (keeps_selectionSet hp owner).bind fun inner hi => keeps_pure ⟨?_, h.fragments⟩
  intro operation hm
  rcases List.mem_append.1 hm with hm | hm
  · exact h.operations operation hm
  · obtain rfl := List.mem_singleton.1 hm
    exact ⟨owner, ho, hi⟩

/-- One more definition. -/
theorem keeps_definition (h : Throughout root P document) :
    Keeps sort (definition typing root document) (Throughout root P) := by
  refine (keeps_atPunctuator "\x7b").andThen fun shorthand => ?_
  split
  · exact keeps_operation hp h .query none
  refine (keeps_atName "fragment").andThen fun isFragment => ?_
  split
  · refine (keeps_keyword "fragment").andThen fun _ => keeps_name.andThen fun name => ?_
    refine (keeps_keyword "on").andThen fun _ => keeps_name.andThen fun condition => ?_
    refine keeps_directives.andThen fun _ => ?_
    refine (keeps_selectionSet hp condition).bind fun inner hi => keeps_pure ⟨h.operations, ?_⟩
    intro fragment hm
    rcases List.mem_append.1 hm with hm | hm
    · exact h.fragments fragment hm
    · obtain rfl := List.mem_singleton.1 hm
      exact hi
  · have hrest : ∀ kind name?, Keeps sort (do
        let _ ← Grammar.optionalEnclosed "(" ")" variableDefinition
        let _ ← directives
        let owner ← (root kind : Option String)
        let selections ← selectionSet typing owner
        return { document with
          operations := document.operations ++ [⟨kind, name?, selections⟩] })
        (Throughout root P) :=
      fun kind name? => (keeps_variableDefinition.optionalEnclosed _ _).andThen fun _ =>
        keeps_directives.andThen fun _ => keeps_operation hp h kind name?
    refine keeps_name.andThen fun word => (keeps_lift _).andThen fun kind => ?_
    refine keeps_peek.andThen fun token? => ?_
    dsimp only
    split
    · exact keeps_next.andThen fun _ => hrest kind _
    · exact hrest kind none

/-- All definitions up to the end. -/
theorem keeps_definitions (fuel : Nat) (h : Throughout root P document) :
    Keeps sort (definitions typing root fuel document) (Throughout root P) := by
  induction fuel generalizing document with
  | zero => exact keeps_failure
  | succ fuel ih =>
    refine keeps_remaining.andThen fun remaining => ?_
    split
    · exact keeps_pure h
    · exact (keeps_definition hp h).bind fun document hd => ih hd

/-- The selections of a document that is read from a text have the property. -/
theorem throughout_of_ofText? {text : String} {document : Document}
    (hs : ∀ tokens, Token.scan? text = some tokens → ∀ token ∈ tokens, sort token)
    (h : Document.ofText? typing root text = some document) : Throughout root P document := by
  unfold Document.ofText? at h
  simp only [Option.bind_eq_bind, Option.bind_eq_some_iff] at h
  obtain ⟨tokens, hscan, ⟨read, rest⟩, hr, hd⟩ := h
  cases hd
  have hempty : Throughout root P ⟨[], []⟩ := by
    constructor <;> exact List.forall_mem_nil _
  exact (keeps_definitions hp _ hempty tokens _ rest (hs tokens hscan) hr).1

end

/-- A selection that is read for a schema fits it. -/
theorem composes_fits (schema : Schema) :
    Composes (fun _ => True) schema.typing (Selection.Fits schema) where
  field field _ _ htype hinner := by
    obtain ⟨definition, hd, ht⟩ := Option.map_eq_some_iff.1 htype
    exact .field rfl hd ht hinner
  inlineFragment _ _ _ hinner := .inlineFragment hinner
  fragmentSpread _ _ := .fragmentSpread

end Grammar

/-- A document that is read for a schema fits it. -/
theorem Schema.fits_of_document? {schema : Schema} {text : String} {document : Document}
    (h : schema.document? text = some document) : document.Fits schema := by
  have hfits := Grammar.throughout_of_ofText? (Grammar.composes_fits schema)
    (fun _ _ _ _ => trivial) h
  exact ⟨hfits.operations, hfits.fragments⟩

end QueryEngine
