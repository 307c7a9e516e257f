import QueryEngine.Error
import QueryEngine.Json.Path

/-!
# Responses

What an execution answers: the data built so far and the errors met on the way. `toJson` leaves
out what is empty, `ofJson?` puts the defaults back, so a response survives the way through JSON
unless its data is a null that somebody put there by hand.
-/

namespace QueryEngine

/-- An error of a response. -/
structure ResponseError where
  message : String
  /-- The field that failed; none for an error of the whole operation. -/
  path : Option Path
  extensions : Fields
deriving Inhabited, Repr

/-- A response. -/
structure Response where
  data : Option Json
  errors : List ResponseError
  extensions : Fields
deriving Inhabited, Repr

/-- The entries of an object as a list of one entry, or none if there is nothing to say. -/
def Json.unlessEmpty (key : String) (fields : Fields) : Fields :=
  if fields.isEmpty then [] else [(key, .object fields)]

/-- A value read as an object, or no entries where it is left out. -/
def Json.optionalObject? : Option Json → Option Fields
  | none => some []
  | some (.object fields) => some fields
  | some _ => none

namespace ResponseError

/-- A field error at its path, with a code for the case that it has none. -/
def ofFieldError (error : FieldError) (path : Path) (code : String) : ResponseError :=
  let coded := error.withCode code
  ⟨coded.message, some path, coded.extensions⟩

/-- An error of an operation that cannot be built. -/
def ofBuildError (error : BuildError) : ResponseError :=
  ⟨error.message, none, [("code", .string error.code)]⟩

/-- The error of an execution that stopped. -/
def ofExecutionError (error : ExecutionError) : ResponseError :=
  ⟨error.message, none, error.extensions⟩

/-- An error from its parts; the code is put in unless the extensions have one. -/
def ofParts (message : String) (path : Option Path) (code : Option String)
    (extensions : Fields) : ResponseError :=
  match code with
  | some code => ⟨message, path, Entries.putIfAbsent "code" (.string code) extensions⟩
  | none => ⟨message, path, extensions⟩

/-- The code, if it is a string. -/
def code? (error : ResponseError) : Option String :=
  (error.extensions.lookup "code").bind Json.asString?

/-- An error as JSON, without what is absent or empty. -/
def toJson (error : ResponseError) : Json :=
  .object <|
    [("message", .string error.message)]
      ++ (error.path.map fun path => ("path", path.toJson)).toList
      ++ Json.unlessEmpty "extensions" error.extensions

/-- An error from the JSON of its parts; one that is left out has its default. -/
def ofJsonParts? (message path extensions : Option Json) : Option ResponseError := do
  let message ← match message with
    | none => some ""
    | some value => value.asString?
  let path ← match path with
    | none | some .null => some none
    | some value => (Path.ofJson? value).map some
  let extensions ← Json.optionalObject? extensions
  pure ⟨message, path, extensions⟩

/-- The error that a JSON value describes: an object, or a list of the parts in order. -/
def ofJson? : Json → Option ResponseError
  | .object fields =>
    ofJsonParts? (fields.lookup "message") (fields.lookup "path") (fields.lookup "extensions")
  | .array items => if 3 < items.length then none else ofJsonParts? items[0]? items[1]? items[2]?
  | _ => none

end ResponseError

namespace Response

/-- The errors that carry a code. -/
def errorsWithCode (response : Response) (code : String) : List ResponseError :=
  response.errors.filter fun error => error.code? == some code

/-- A response as JSON, without what is absent or empty. -/
def toJson (response : Response) : Json :=
  .object <|
    (response.data.map fun data => ("data", data)).toList
      ++ (if response.errors.isEmpty then []
          else [("errors", .array (response.errors.map ResponseError.toJson))])
      ++ Json.unlessEmpty "extensions" response.extensions

/-- A response from the JSON of its parts; one that is left out has its default, and null data is
no data. -/
def ofJsonParts? (data errors extensions : Option Json) : Option Response := do
  let data := match data with
    | some .null => none
    | data => data
  let errors ← match errors with
    | none => some []
    | some (.array items) => items.mapM ResponseError.ofJson?
    | some _ => none
  let extensions ← Json.optionalObject? extensions
  pure ⟨data, errors, extensions⟩

/-- The response that a JSON value describes: an object, or a list of the parts in order. -/
def ofJson? : Json → Option Response
  | .object fields =>
    ofJsonParts? (fields.lookup "data") (fields.lookup "errors") (fields.lookup "extensions")
  | .array items => if 3 < items.length then none else ofJsonParts? items[0]? items[1]? items[2]?
  | _ => none

end Response

end QueryEngine
