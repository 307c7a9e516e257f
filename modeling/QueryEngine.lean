import QueryEngine.Configuration.Document
import QueryEngine.Execution.Build
import QueryEngine.Execution.Run
import QueryEngine.Json.Reader
import QueryEngine.Json.Writer
import QueryEngine.Proofs.Connection.Backward
import QueryEngine.Proofs.Connection.Bounds
import QueryEngine.Proofs.Context.Entries
import QueryEngine.Proofs.Execution.Arguments
import QueryEngine.Proofs.Execution.Batching
import QueryEngine.Proofs.Execution.ErrorPaths
import QueryEngine.Proofs.Execution.Isolation
import QueryEngine.Proofs.Execution.Modes
import QueryEngine.Proofs.Execution.Nulls
import QueryEngine.Proofs.Execution.Objects
import QueryEngine.Proofs.Execution.Reordering
import QueryEngine.Proofs.Execution.Repeated
import QueryEngine.Proofs.Execution.Responses
import QueryEngine.Proofs.Execution.Shape
import QueryEngine.Proofs.Execution.SharedPage
import QueryEngine.Proofs.Execution.Variables
import QueryEngine.Proofs.Execution.Writes
import QueryEngine.Proofs.Field.Binding
import QueryEngine.Proofs.Field.Strategy
import QueryEngine.Proofs.Language.Reading
import QueryEngine.Proofs.Memo.Discipline
import QueryEngine.Proofs.Schema.CachedDescriptor
import QueryEngine.Proofs.Schema.Catalogue
import QueryEngine.Proofs.Selection.Chains
import QueryEngine.Proofs.Selection.Cost
import QueryEngine.Proofs.Selection.Definitions
import QueryEngine.Proofs.Selection.Limit
import QueryEngine.Schema.Catalogue
import QueryEngine.Schema.Reader
import QueryEngine.Script.Lookup
import QueryEngine.Script.Registration
import QueryEngine.Selection.Cost
import QueryEngine.Selection.Inspect
