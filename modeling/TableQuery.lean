import TableQuery.Connection
import TableQuery.Placeholders.Sharing
import TableQuery.Request.Fluent
import TableQuery.Result.Record
import TableQuery.Proofs.Numbering
import TableQuery.Proofs.Mentions
import TableQuery.Proofs.Clauses
import TableQuery.Proofs.Direct
import TableQuery.Proofs.Steps
import TableQuery.Proofs.Updates
import TableQuery.Proofs.Compilation
import TableQuery.Proofs.Expression.Lexeme
import TableQuery.Proofs.Expression.Written
import TableQuery.Proofs.Expression.Keys
import TableQuery.Proofs.Expression.Unambiguous
import TableQuery.Proofs.Expression.Update
import TableQuery.Proofs.Body
import TableQuery.Proofs.Closed
import TableQuery.Proofs.Renaming
import TableQuery.Proofs.Ledger
import TableQuery.Proofs.Declared
import TableQuery.Proofs.Refusal
import TableQuery.Proofs.TypedForm
import TableQuery.Proofs.Base64
import TableQuery.Proofs.JsonForm
import TableQuery.Proofs.DryRun
import TableQuery.Proofs.ByteOrder
import TableQuery.Proofs.GenericValue
import TableQuery.Proofs.SortedForm
import TableQuery.Proofs.Records
import TableQuery.Proofs.BoundValues
import TableQuery.Proofs.Pagination
import TableQuery.Proofs.Unprocessed
import TableQuery.Proofs.KeyChecks
import TableQuery.Proofs.Numeral
import TableQuery.Proofs.Payload
import TableQuery.Proofs.Sharing
import TableQuery.Proofs.Interleaving
import TableQuery.Proofs.Arrival
import TableQuery.Proofs.Stability
import TableQuery.Proofs.Expression.Entries
import TableQuery.Proofs.Split
import TableQuery.Proofs.FirstUse
import TableQuery.Proofs.Settings
import TableQuery.Proofs.Spelling
import TableQuery.Proofs.Shorthand
import TableQuery.Proofs.Retrieval
import TableQuery.Proofs.Failures
import TableQuery.Proofs.Decoding
import TableQuery.Proofs.Digits
import TableQuery.Proofs.JsonText.Tokens
import TableQuery.Proofs.JsonText.Written
import TableQuery.Proofs.JsonText.Accepted
import TableQuery.Proofs.JsonText.Printed
import TableQuery.Proofs.JsonText.Depth
import TableQuery.Proofs.Conversion
import TableQuery.Proofs.Parts
import TableQuery.Proofs.BatchEntries
import TableQuery.Proofs.WireShapes
import TableQuery.Proofs.Integers
