/- A client that follows a script.

   Each expectation stands for one call. Calls meet the expectations in order; the one that a call meets
   is used up even when the call does not match it. The client keeps a log of every request. -/

import TableQuery.Client.Basic
import TableQuery.Client.Matching

set_option autoImplicit false
set_option relaxedAutoImplicit false

namespace TableQuery

/-- How the request of a call is checked: not at all, against a shape, or by a named rule, which is kept when
it gives no fault. -/
inductive Check where
  | anything
  | shape (expected : Value)
  | rule (name : Text) (judge : Record → Except Fault Unit)

/-- A fault that a script can ask for. -/
inductive ScriptedFault where
  | client (error : ClientError)
  | throttled (code description : Text)
  | runtime (description : Text)
  deriving DecidableEq, Repr

namespace ScriptedFault

def toFault : ScriptedFault → Fault
  | .client error => .client error
  | .throttled code description => .throttled code description
  | .runtime description => .runtime description

def kindName : ScriptedFault → Text
  | .client _ => "ClientError"
  | .throttled .. => "ThrottlingError"
  | .runtime _ => "RuntimeError"

/-- The written form of a fault: its kind and its message. -/
def quoted (fault : ScriptedFault) : Text :=
  fault.kindName ++ "(" ++ (fault.toFault.message?.getD []).quoted ++ ")"

end ScriptedFault

/-- An expected call: its method, the check of its request, the keys that the request must not have, and
the response or the fault that answers it. -/
structure Expectation where
  method : Text
  check : Check
  response : Value
  fault : Option ScriptedFault
  absent : List Text

namespace Check

/-- The rule that every request keeps. -/
def accept : Check := .rule "accept" fun _ => .ok ()

/-- The rule that no request keeps. Its fault names the text keys of the request. -/
def reject : Check := .rule "reject" fun request =>
  let keys := request.filterMap fun entry =>
    match entry.1 with
    | .text name => some name
    | _ => none
  .error (.unmet (.rejected (Text.sortBy id keys)))

def quote : Check → Except Fault Text
  | .anything => .ok "None"
  | .shape expected => expected.quote
  | .rule name _ => .ok ("<function " ++ name ++ ">")

def run (method : Text) (request : Record) : Check → Except Fault Unit
  | .anything => .ok ()
  | .rule _ judge => judge request
  | .shape expected => do
    let entries ← expected.toRecord
    match ← Difference.find? method (.map entries) (.map request) with
    | some difference => throw (.unmet (.difference difference.describe))
    | none => return ()

end Check

namespace Expectation

def quote (expectation : Expectation) : Except Fault Text := do
  return "ExpectedCall(method=" ++ expectation.method.quoted ++
    ", expected=" ++ (← expectation.check.quote) ++
    ", response=" ++ (← expectation.response.quote) ++
    ", error=" ++ (match expectation.fault with
      | some fault => fault.quoted
      | none => "None") ++
    ", absent=" ++ (← (Value.tuple (expectation.absent.map .text)).quote) ++ ")"

/-- Checks a call: its method, then its request, then the keys that must be absent. -/
def verify (expectation : Expectation) (method : Text) (request : Record) : Except Fault Unit := do
  if expectation.method ≠ method then throw (.unmet (.otherMethod expectation.method method))
  expectation.check.run method request
  match expectation.absent.find? fun key => (request.get? key).isSome with
  | some key => throw (.unmet (.keyPresent method key))
  | none => return ()

def answer (expectation : Expectation) : Except Fault Record :=
  match expectation.fault with
  | some fault => .error fault.toFault
  | none => if expectation.response.isTruthy then expectation.response.toRecord else .ok []

end Expectation

/-- A client with the expectations that are still to be met, and the log of its calls. -/
structure ScriptedClient where
  pending : List Expectation
  calls : List (Text × Record)

namespace ScriptedClient

def idle : ScriptedClient := ⟨[], []⟩

def expect (client : ScriptedClient) (expectation : Expectation) : ScriptedClient :=
  { client with pending := client.pending ++ [expectation] }

/-- Answers a call, and uses up the expectation that it meets. -/
def call (client : ScriptedClient) (method : Text) (request : Record) :
    Except Fault Record × ScriptedClient :=
  let calls := client.calls ++ [(method, request)]
  match client.pending with
  | [] => (.error (.unmet (.unexpectedCall method)), { pending := [], calls })
  | expectation :: rest =>
    (do expectation.verify method request
        expectation.answer, { pending := rest, calls })

def finish (client : ScriptedClient) : Except Fault Unit :=
  if client.pending.isEmpty then .ok ()
  else do .error (.unmet (.pendingCalls (← client.pending.mapM Expectation.quote)))

def client : Client ScriptedClient where
  call := fun operation request state => state.call operation.name request
  patience := fun state => state.pending.length

end ScriptedClient

end TableQuery
