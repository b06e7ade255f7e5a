/- Error answers of the service.

   An error answer carries a code and a message. Three codes mean that the service is throttled, two have
   faults of their own, and every other code is a fault of the service. -/

import TableQuery.Value.Conversion

set_option autoImplicit false
set_option relaxedAutoImplicit false

namespace TableQuery

namespace ClientError

/-- The name of the entry that describes how an answer came about. -/
def metadataName : Text := "ResponseMetadata"

/-- Whether a value that is no map says that it has metadata. Values that cannot hold a text cannot be
asked. -/
def claimsMetadata : Value → Except Fault Bool
  | .text t => .ok (t.holds metadataName)
  | .list items | .tuple items | .set _ items => .ok (items.any (·.isText metadataName))
  | _ => .error .wrongKind

/-- The record of an answer. A value that is no map has no entries to ask for, but one that says that it
has metadata is asked for these first, and has no entry of that name. -/
def recordOf : Value → Except Fault Record
  | .map entries => .ok entries
  | v => do if ← claimsMetadata v then .error .wrongKind else .error .missingMember

def reportedRetries (response : Record) : Except Fault (Option Text) :=
  match response.get? metadataName with
  | none => .ok none
  | some metadata => do
    let entries ← metadata.entries
    if !(entries.get "MaxAttemptsReached").isTruthy then return none
    match entries.get? "RetryAttempts" with
    | some attempts => return some (← attempts.plain)
    | none => return none

def entryText? (record : Record) (name : Text) : Except Fault (Option Text) :=
  match record.get? name with
  | some v => do return some (← v.plain)
  | none => .ok none

/-- The error that an answer of the given operation reports. -/
def ofResponse (response : Value) (operation : Text) : Except Fault ClientError := do
  let answer ← recordOf response
  let retries ← reportedRetries answer
  let details ← match answer.get? "Error" with
    | some details => details.entries
    | none => .ok []
  let code ← entryText? details "Code"
  let description ← entryText? details "Message"
  return { operation, code, description, retries }

/-- An error answer with the given code; without a message the code is its message. -/
def ofCode (code description operation : Text) : ClientError :=
  { operation
    code := some code
    description := some (if description.isEmpty then code else description)
    retries := none }

def usualOperation : Text := "Query"

def throttling (operation : Text) : ClientError :=
  ofCode "ProvisionedThroughputExceededException"
    "The level of configured provisioned throughput for the table was exceeded." operation

def throttlingCodes : List Text :=
  ["ProvisionedThroughputExceededException", "ThrottlingException", "RequestLimitExceeded"]

def codeText (error : ClientError) : Text := error.code.getD []

/-- Whether the error answer means that the service is throttled. -/
def isThrottling (error : ClientError) : Bool := error.codeText ∈ throttlingCodes

/-- The first text, or the second if the first is empty. -/
def firstFilled (t fallback : Text) : Text := if t.isEmpty then fallback else t

def toFault (error : ClientError) : Fault :=
  let description := error.description.getD []
  if error.isThrottling then .throttled error.codeText description
  else if error.codeText = Text.ofString "ValidationException" then .invalidRequest description
  else if error.codeText = Text.ofString "ResourceNotFoundException" then .notFound description
  else .service (firstFilled error.codeText "UnknownError") (firstFilled description error.message)

end ClientError

end TableQuery
