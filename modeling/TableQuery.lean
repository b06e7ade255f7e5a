/- Compiling and paging queries over key-value tables. -/

import TableQuery.Attribute.Basic
import TableQuery.Attribute.Decoding
import TableQuery.Attribute.Encoding
import TableQuery.Backoff.Environment
import TableQuery.Backoff.Growth
import TableQuery.Backoff.Policy
import TableQuery.Base64
import TableQuery.Client.Basic
import TableQuery.Client.Matching
import TableQuery.Client.Scripted
import TableQuery.Condition.Operator
import TableQuery.Cursor
import TableQuery.Depth
import TableQuery.Exports
import TableQuery.Expression.Clause
import TableQuery.Expression.Compile
import TableQuery.Expression.Dictionaries
import TableQuery.Expression.Tables
import TableQuery.Fault
import TableQuery.Json.Basic
import TableQuery.Json.Reader
import TableQuery.Json.Writer
import TableQuery.Number.Binary64
import TableQuery.Number.Decimal
import TableQuery.Number.Mixed
import TableQuery.Number.Power
import TableQuery.Number.Precision
import TableQuery.Number.Reading
import TableQuery.Number.Shortest
import TableQuery.Octets
import TableQuery.Page
import TableQuery.Paging
import TableQuery.Pipeline.Basic
import TableQuery.Pipeline.Run
import TableQuery.Pipeline.Stage
import TableQuery.Proofs.Attribute.Depth
import TableQuery.Proofs.Attribute.Encoding
import TableQuery.Proofs.Attribute.Numerals
import TableQuery.Proofs.Attribute.Returning
import TableQuery.Proofs.Attribute.Serializing
import TableQuery.Proofs.Backoff.Blank
import TableQuery.Proofs.Backoff.Delay
import TableQuery.Proofs.Backoff.Environment
import TableQuery.Proofs.Base64
import TableQuery.Proofs.Client.Matching
import TableQuery.Proofs.Client.Script
import TableQuery.Proofs.Cursor.Keys
import TableQuery.Proofs.Cursor.Reissuing
import TableQuery.Proofs.Cursor.RoundTrip
import TableQuery.Proofs.Expression.Accepting
import TableQuery.Proofs.Expression.Compiling
import TableQuery.Proofs.Expression.Determining
import TableQuery.Proofs.Expression.Dictionaries
import TableQuery.Proofs.Expression.Grammar
import TableQuery.Proofs.Expression.Mentioning
import TableQuery.Proofs.Expression.Numbering
import TableQuery.Proofs.Expression.Placeholders
import TableQuery.Proofs.Expression.Refusing
import TableQuery.Proofs.Expression.Renaming
import TableQuery.Proofs.Expression.Rendering
import TableQuery.Proofs.Expression.Sequences
import TableQuery.Proofs.Expression.Tokens
import TableQuery.Proofs.Expression.Validating
import TableQuery.Proofs.Json.Reading
import TableQuery.Proofs.Json.RoundTrip
import TableQuery.Proofs.Number.Exactness
import TableQuery.Proofs.Number.Writing
import TableQuery.Proofs.Outcomes
import TableQuery.Proofs.Paging.Calls
import TableQuery.Proofs.Paging.Iteration
import TableQuery.Proofs.Paging.Opening
import TableQuery.Proofs.Paging.PageSequence
import TableQuery.Proofs.Paging.Pulling
import TableQuery.Proofs.Paging.Reference
import TableQuery.Proofs.Paging.Reframing
import TableQuery.Proofs.Paging.Requests
import TableQuery.Proofs.Paging.Resuming
import TableQuery.Proofs.Paging.Step
import TableQuery.Proofs.Paging.Store
import TableQuery.Proofs.Paging.Throttling
import TableQuery.Proofs.Paging.Truncation
import TableQuery.Proofs.Pipeline.Accounting
import TableQuery.Proofs.Pipeline.Ending
import TableQuery.Proofs.Pipeline.Failing
import TableQuery.Proofs.Pipeline.Ordering
import TableQuery.Proofs.Pipeline.Passing
import TableQuery.Proofs.Pipeline.Retrying
import TableQuery.Proofs.Pipeline.Watching
import TableQuery.Proofs.Records
import TableQuery.Proofs.Release.Candidates
import TableQuery.Proofs.Release.Recording
import TableQuery.Proofs.Request.Compilation
import TableQuery.Proofs.Request.Cursors
import TableQuery.Proofs.Request.Fields
import TableQuery.Proofs.Request.Meaning
import TableQuery.Proofs.Request.Placeholders
import TableQuery.Proofs.Request.Refusing
import TableQuery.Proofs.Request.Selection
import TableQuery.Proofs.Text.Order
import TableQuery.Proofs.Text.Utf8
import TableQuery.Proofs.Value.Equality
import TableQuery.Proofs.Value.Fitting
import TableQuery.Proofs.Value.Sorting
import TableQuery.Release
import TableQuery.Request.Build
import TableQuery.Request.KeyConditions
import TableQuery.Request.Options
import TableQuery.Request.StartKey
import TableQuery.ServiceError
import TableQuery.Text.Basic
import TableQuery.Text.Blank
import TableQuery.Text.Digit
import TableQuery.Text.Lowercase
import TableQuery.Text.Printable
import TableQuery.Text.Quoted
import TableQuery.Text.Utf8
import TableQuery.Value.Basic
import TableQuery.Value.Conversion
import TableQuery.Value.Equality
import TableQuery.Value.Order
import TableQuery.Value.Quoted
import TableQuery.Value.Sorting
