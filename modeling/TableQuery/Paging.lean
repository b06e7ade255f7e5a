/- Reading a table page by page.

   The request is built when the first page is asked for, and each further page is asked for only when
   the one before has been taken. The reading ends with the last page, with a fault, or when it is
   closed. -/

import TableQuery.Backoff.Environment
import TableQuery.Client.Basic
import TableQuery.Pipeline.Basic
import TableQuery.Request.Build

set_option autoImplicit false
set_option relaxedAutoImplicit false

namespace TableQuery

/-- A reading of a table: the operation, its options, and how to deal with throttling. -/
structure Reading where
  operation : Operation
  table : Table
  options : Record
  policy : Policy
  maxRetries : Value
  deriving Repr

namespace Reading

/-- Options with further ones that replace those of the same name. -/
def merge (options : Value) (further : Record) : Except Fault Record := do
  let given ← if options.isTruthy then
      match options with
      | .map entries => .ok entries
      | _ => .error .wrongKind
    else .ok []
  return further.foldl (fun merged entry => merged.insert entry.1 entry.2) given

def make (operation : Operation) (table : Table) (options : Value) (further : Record)
    (policy : Option Policy) (maxRetries : Value) (environment : Environment) :
    Except Fault Reading := do
  let options ← merge options further
  let policy ← match policy with
    | some policy => .ok policy
    | none => environment.policy
  let maxRetries ←
    if maxRetries.isNull then environment.maxRetries.map .ofInt? else .ok maxRetries
  return { operation, table, options, policy, maxRetries }

variable [DepthLimits]

def request (reading : Reading) : Except Fault Record :=
  Request.build reading.operation reading.table (.map reading.options)

def stages (reading : Reading) : Except Fault (List Stage) := do
  let selection ← Selection.ofRecord reading.operation.options reading.options
  let records ← Limits.records selection.options
  let scanned ← Limits.scanned selection.options
  let batch ← Limits.batch selection.options
  let retry ← Retry.make reading.policy reading.maxRetries reading.operation.name
  return [.startKey .null, .newLimit { records, scanned, batch }, .backoff retry]

end Reading

/-- How far a reading has come. -/
inductive Progress where
  | fresh
  | running (request : Record) (stages : List Stage)
  | ended
  deriving Repr

/-- What asking for one more gives: it, or nothing at the end, or a fault; with the events on the way,
the progress and the state of the client afterwards. -/
structure Pull (σ π α : Type) where
  outcome : Except Fault (Option α)
  events : List Event
  progress : π
  state : σ

namespace Reading

def advance {σ : Type} (reading : Reading) (client : Client σ) (request : Record)
    (stages : List Stage) (state : σ) : Pull σ Progress Page :=
  let run := Pipeline.run (client.service reading.operation) stages request state
  let (stages, state) := run.state
  match run.outcome with
  | .error fault => { outcome := .error fault, events := run.events, progress := .ended, state }
  | .ok (.more page) =>
    { outcome := .ok (some page), events := run.events, progress := .running request stages, state }
  | .ok (.done page) => { outcome := .ok page, events := run.events, progress := .ended, state }

variable [DepthLimits]

def pullPage {σ : Type} (reading : Reading) (client : Client σ) (progress : Progress) (state : σ) :
    Pull σ Progress Page :=
  match progress with
  | .ended => { outcome := .ok none, events := [], progress := .ended, state }
  | .running request stages => reading.advance client request stages state
  | .fresh =>
    match reading.request, reading.stages with
    | .ok request, .ok stages => reading.advance client request stages state
    | .error fault, _ => { outcome := .error fault, events := [], progress := .ended, state }
    | _, .error fault => { outcome := .error fault, events := [], progress := .ended, state }

/-- Asks for the next item: the items of a page are given one by one before the next page is asked for.
At most `fuel` pages are asked for, and there is nothing to give when all of them are without items and more
may follow. -/
def pullItemWithin {σ : Type} (reading : Reading) (client : Client σ) :
    Nat → List Value → Progress → σ → Option (Pull σ (List Value × Progress) Value)
  | _, item :: rest, progress, state =>
    some { outcome := .ok (some item), events := [], progress := (rest, progress), state }
  | 0, [], _, _ => none
  | fuel + 1, [], progress, state =>
    let pull := reading.pullPage client progress state
    match pull.outcome with
    | .error fault =>
      some { outcome := .error fault, events := pull.events, progress := ([], pull.progress),
             state := pull.state }
    | .ok none =>
      some { outcome := .ok none, events := pull.events, progress := ([], pull.progress),
             state := pull.state }
    | .ok (some page) =>
      (reading.pullItemWithin client fuel page.items pull.progress pull.state).map fun next =>
        { next with events := pull.events ++ next.events }

def pullItem? {σ : Type} (reading : Reading) (client : Client σ) (ready : List Value)
    (progress : Progress) (state : σ) : Option (Pull σ (List Value × Progress) Value) :=
  reading.pullItemWithin client (client.patience state + 2) ready progress state

end Reading

/-- What taking all that is left gives: it, and the fault that ended it, if one did. -/
structure Drain (σ π α : Type) where
  taken : List α
  fault : Option Fault
  events : List Event
  progress : π
  state : σ

/-- Takes one after another until nothing is left, at most `fuel` times. -/
def drainWithin {σ π α : Type} (pull : π → σ → Pull σ π α) : Nat → π → σ → Drain σ π α
  | 0, progress, state => { taken := [], fault := none, events := [], progress, state }
  | fuel + 1, progress, state =>
    let pulled := pull progress state
    match pulled.outcome with
    | .error fault =>
      { taken := [], fault := some fault, events := pulled.events, progress := pulled.progress,
        state := pulled.state }
    | .ok none =>
      { taken := [], fault := none, events := pulled.events, progress := pulled.progress,
        state := pulled.state }
    | .ok (some next) =>
      let rest := drainWithin pull fuel pulled.progress pulled.state
      { rest with taken := next :: rest.taken, events := pulled.events ++ rest.events }

namespace Reading

variable [DepthLimits]

def drainPages {σ : Type} (reading : Reading) (client : Client σ) (progress : Progress) (state : σ) :
    Drain σ Progress Page :=
  drainWithin (reading.pullPage client) (client.patience state + 2) progress state

/-- Takes all items that are left: those that are ready, then those of all pages. -/
def drainItems {σ : Type} (reading : Reading) (client : Client σ) (ready : List Value)
    (progress : Progress) (state : σ) : Drain σ (List Value × Progress) Value :=
  let pages := reading.drainPages client progress state
  { taken := ready ++ pages.taken.flatMap Page.items
    fault := pages.fault
    events := pages.events
    progress := ([], pages.progress)
    state := pages.state }

end Reading

end TableQuery
