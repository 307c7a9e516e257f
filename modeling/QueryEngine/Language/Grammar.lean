import QueryEngine.Language.Document
import QueryEngine.Language.Token

/-!
# Grammar

Reading documents from tokens. A reader takes tokens off the front and answers with what is left,
or with nothing where the tokens do not fit; repeated parts are read with the number of tokens as
fuel. The number of a node is the number of tokens from its first one to the end of the text, so no
two nodes of one text share it.
-/

namespace QueryEngine

/-- A reader of a part of a document. -/
abbrev Grammar (α : Type) := StateT (List Token) Option α

namespace Grammar

/-- The next token, left in place. -/
def peek : Grammar (Option Token) := do
  return (← get).head?

/-- How many tokens are left. -/
def remaining : Grammar Nat := do
  return (← get).length

/-- Takes the next token off. -/
def next : Grammar Token := do
  match ← get with
  | token :: rest => set rest; return token
  | [] => failure

/-- Whether the next token is the given punctuator. -/
def atPunctuator (text : String) : Grammar Bool := do
  match ← peek with
  | some (.punctuator other) => return other == text
  | _ => return false

/-- Takes the given punctuator off. -/
def punctuator (text : String) : Grammar Unit := do
  match ← next with
  | .punctuator other => if other == text then return () else failure
  | _ => failure

/-- Takes the given punctuator off if it is next, and says whether it was. -/
def optionalPunctuator (text : String) : Grammar Bool := do
  if ← atPunctuator text then
    let _ ← next
    return true
  else return false

/-- Takes a name off. -/
def name : Grammar String := do
  match ← next with
  | .name text => return text
  | _ => failure

/-- Whether the next token is the given name. -/
def atName (text : String) : Grammar Bool := do
  match ← peek with
  | some (.name other) => return other == text
  | _ => return false

/-- Takes the given name off. -/
def keyword (text : String) : Grammar Unit := do
  if (← name) == text then return () else failure

/-- Reads parts until the given punctuator, which is taken off. -/
def upTo {α : Type} (close : String) (part : Grammar α) : Nat → Grammar (List α)
  | 0 => failure
  | fuel + 1 => do
    if ← optionalPunctuator close then return []
    else
      let first ← part
      let rest ← upTo close part fuel
      return first :: rest

/-- Reads at least one part between two punctuators. -/
def enclosed {α : Type} (opening close : String) (part : Grammar α) : Grammar (List α) := do
  punctuator opening
  let parts ← upTo close part ((← remaining) + 1)
  if parts.isEmpty then failure else return parts

/-- Reads parts between two punctuators, or none if the first one is not next. -/
def optionalEnclosed {α : Type} (opening close : String) (part : Grammar α) :
    Grammar (List α) := do
  if ← atPunctuator opening then enclosed opening close part else return []

/-- A value. Its fuel bounds the nesting of lists and objects. -/
def literal : Nat → Grammar Literal
  | 0 => failure
  | fuel + 1 => do
    match ← next with
    | .int value => return .int value
    | .float value => return .float value
    | .string text => return .string text
    | .name text =>
      if text == "true" then return .bool true
      else if text == "false" then return .bool false
      else if text == "null" then return .null
      else return .enum text
    | .punctuator text =>
      if text == "$" then return .variable (← name)
      else if text == "[" then
        return .list (← upTo "]" (literal fuel) ((← remaining) + 1))
      else if text == "\x7b" then
        let field : Grammar (String × Literal) := do
          let key ← name
          punctuator ":"
          return (key, ← literal fuel)
        return .object (← upTo "\x7d" field ((← remaining) + 1))
      else failure

/-- A value of any nesting that the tokens have room for. -/
def value : Grammar Literal := do
  literal ((← remaining) + 1)

/-- A name, a colon and a value. -/
def argument : Grammar (String × Literal) := do
  let key ← name
  punctuator ":"
  return (key, ← value)

/-- The arguments of a field or a directive. -/
def arguments : Grammar (List (String × Literal)) :=
  optionalEnclosed "(" ")" argument

/-- The directives in front of the next other token. -/
def directivesFrom : Nat → Grammar (List Directive)
  | 0 => failure
  | fuel + 1 => do
    if ← optionalPunctuator "@" then
      let name ← name
      let arguments ← arguments
      let rest ← directivesFrom fuel
      return ⟨name, arguments⟩ :: rest
    else return []

/-- Any number of directives. -/
def directives : Grammar (List Directive) := do
  directivesFrom ((← remaining) + 1)

/-- A reference to a type. Its fuel bounds the nesting of lists. -/
def typeRefFrom : Nat → Grammar TypeRef
  | 0 => failure
  | fuel + 1 => do
    let type ←
      if ← optionalPunctuator "[" then
        let item ← typeRefFrom fuel
        punctuator "]"
        pure (TypeRef.list item)
      else pure (TypeRef.named (← name))
    if ← optionalPunctuator "!" then return type.nonNull else return type

/-- A reference to a type of any nesting that the tokens have room for. -/
def typeRef : Grammar TypeRef := do
  typeRefFrom ((← remaining) + 1)

/-- The type of a field on a type, as far as a schema knows it. -/
abbrev Typing := String → String → Option TypeRef

/-- A selection on the type `owner`, or on the type of an inline fragment's condition. -/
def selection (typing : Typing) : Nat → String → Grammar Selection
  | 0, _ => failure
  | fuel + 1, owner => do
    let id ← remaining
    if ← optionalPunctuator "..." then
      let isInline := (← atName "on") || (← atPunctuator "@") || (← atPunctuator "\x7b")
      if isInline then
        let condition? ←
          if ← atName "on" then
            keyword "on"
            pure (some (← name))
          else pure none
        let directives ← directives
        let selections ← enclosed "\x7b" "\x7d" (selection typing fuel (condition?.getD owner))
        return .inlineFragment { id, condition?, directives } selections
      else
        let fragment ← name
        let directives ← directives
        return .fragmentSpread { id, fragment, directives }
    else
      let first ← name
      let (alias?, name) ←
        if ← optionalPunctuator ":" then pure (some first, ← name) else pure (none, first)
      let arguments ← arguments
      let directives ← directives
      let type ← (typing owner name : Option TypeRef)
      let selections ← optionalEnclosed "\x7b" "\x7d" (selection typing fuel type.inner)
      return .field { id, alias?, name, arguments, directives, owner, type } selections

/-- A selection set on a type. -/
def selectionSet (typing : Typing) (owner : String) : Grammar (List Selection) := do
  enclosed "\x7b" "\x7d" (selection typing ((← remaining) + 1) owner)

/-- The declaration of a variable, which an execution needs no part of. -/
def variableDefinition : Grammar Unit := do
  punctuator "$"
  let _ ← name
  punctuator ":"
  let _ ← typeRef
  if ← optionalPunctuator "=" then
    let _ ← value
  let _ ← directives

/-- The kind of operation that a keyword starts. -/
def operationKind? (text : String) : Option OperationKind :=
  if text == "query" then some .query
  else if text == "mutation" then some .mutation
  else if text == "subscription" then some .subscription
  else none

/-- Adds the next operation or fragment to a document. -/
def definition (typing : Typing) (root : OperationKind → Option String) (document : Document) :
    Grammar Document := do
  if ← atPunctuator "\x7b" then
    let owner ← (root .query : Option String)
    let selections ← selectionSet typing owner
    return { document with
      operations := document.operations ++ [⟨.query, none, selections⟩] }
  else if ← atName "fragment" then
    keyword "fragment"
    let name ← name
    keyword "on"
    let condition ← Grammar.name
    let _ ← directives
    let selections ← selectionSet typing condition
    return { document with
      fragments := document.fragments ++ [⟨name, condition, selections⟩] }
  else
    let kind ← (operationKind? (← name) : Option OperationKind)
    let name? ← do
      match ← peek with
      | some (.name text) => let _ ← next; pure (some text)
      | _ => pure none
    let _ ← optionalEnclosed "(" ")" variableDefinition
    let _ ← directives
    let owner ← (root kind : Option String)
    let selections ← selectionSet typing owner
    return { document with
      operations := document.operations ++ [⟨kind, name?, selections⟩] }

/-- The definitions up to the end. -/
def definitions (typing : Typing) (root : OperationKind → Option String) :
    Nat → Document → Grammar Document
  | 0, _ => failure
  | fuel + 1, document => do
    if (← remaining) = 0 then return document
    else definitions typing root fuel (← definition typing root document)

end Grammar

/-- The document that a text writes. `typing` knows the types of fields and `root` the types of
operations. -/
def Document.ofText? (typing : Grammar.Typing) (root : OperationKind → Option String)
    (text : String) : Option Document := do
  let tokens ← Token.scan? text
  let (document, _) ← (Grammar.definitions typing root (tokens.length + 1) ⟨[], []⟩).run tokens
  return document

/-- The type that the text of a type reference writes. -/
def TypeRef.ofText? (text : String) : Option TypeRef := do
  let tokens ← Token.scan? text
  let (type, rest) ← Grammar.typeRef.run tokens
  if rest.isEmpty then return type else none

end QueryEngine
