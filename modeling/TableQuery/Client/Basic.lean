/- Clients: what carries requests to the service and brings its answers. -/

import TableQuery.Pipeline.Run
import TableQuery.Request.Options
import TableQuery.ServiceError

set_option autoImplicit false
set_option relaxedAutoImplicit false

namespace TableQuery

/-- A client answers the requests of an operation with records. Its patience bounds how many more calls
it answers before it gives a fault that ends the reading. -/
structure Client (σ : Type) where
  call : Operation → Record → σ → Except Fault Record × σ
  patience : σ → Nat

namespace Client

/-- The page of an answer. An error answer of the service becomes the fault that it stands for. -/
def pageOf : Except Fault Record → Except Fault Page
  | .ok response => Page.ofResponse response
  | .error (.client error) => .error error.toFault
  | .error fault => .error fault

/-- The service that a client is for one operation. -/
def service {σ : Type} (client : Client σ) (operation : Operation) : Service σ where
  answer := fun request state =>
    let (response, state) := client.call operation request state
    (pageOf response, state)
  patience := client.patience

end Client

/-- The answer with the given items: their number as its count, the last key unless it is null, and as
many evaluated records as items when no number is given. -/
def responseOf (items lastKey : Value) (scannedCount : Option Int) : Except Fault Record := do
  let count ← match items with
    | .binary _ => .error .wrongKind
    | other => other.elements.map List.length
  let entries : Record :=
    [(.text "Items", items), (.text "Count", .int count),
      (.text "ScannedCount", .int (scannedCount.getD count))]
  return if lastKey.isNull then entries else entries ++ [(.text "LastEvaluatedKey", lastKey)]

end TableQuery
