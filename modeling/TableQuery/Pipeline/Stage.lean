/- The stages of a pipeline.

   A stage stands around the steps inside it: it can change the request on the way in and the result on
   the way out, call the inner steps again, or not call them at all. Start-key and limit stages keep a
   state from run to run. -/

import TableQuery.Pipeline.Run

set_option autoImplicit false
set_option relaxedAutoImplicit false

namespace TableQuery

/-- The caps of a limit stage: on records returned, on records evaluated, and on one page. -/
structure Caps where
  records : Option Int
  scanned : Option Int
  batch : Option Int
  deriving DecidableEq, Repr

/-- What a limit stage has counted. -/
structure Tally where
  records : Int
  scanned : Int
  deriving DecidableEq, Repr

structure Retry where
  policy : Policy
  maxRetries : Option Number
  operation : Text
  deriving DecidableEq, Repr

inductive Stage where
  | startKey (key : Value)
  | limit (caps : Caps) (tally : Tally)
  | backoff (retry : Retry)
  | note (label : Text)
  | finish
  | skip
  deriving Repr

namespace Caps

def left (cap : Option Int) (used : Int) : Option Int := cap.map (· - used)

/-- What is left of the caps on records and on evaluated records, as far as they are set. -/
def remaining (caps : Caps) (tally : Tally) : List Int :=
  [left caps.records tally.records, left caps.scanned tally.scanned].filterMap id

def usedUp (caps : Caps) (tally : Tally) : Bool := (caps.remaining tally).any (· ≤ 0)

/-- The limit of the next page: the least of what is left and of the cap on one page, at least one. -/
def pageLimit? (caps : Caps) (tally : Tally) : Option Int :=
  (caps.remaining tally ++ caps.batch.toList).min?.map (max 1 ·)

def limited (caps : Caps) (tally : Tally) (request : Record) : Record :=
  match caps.pageLimit? tally with
  | some n => request.put "Limit" (.int n)
  | none => request

def reached (cap : Option Int) (count : Int) : Bool := cap.any (· ≤ count)

/-- Counts a page. The page that reaches the cap on records is cut to what was left of it, and a page
that reaches a cap ends the reading. -/
def settle (caps : Caps) (tally : Tally) (result : StepResult) (page : Page) : StepResult × Tally :=
  let counted : Tally :=
    { records := tally.records + page.count, scanned := tally.scanned + page.scannedCount }
  if reached caps.records counted.records then
    let allowance := caps.records.getD 0 - tally.records
    if allowance < page.count then
      (.done (some (page.truncate allowance)), { counted with records := caps.records.getD 0 })
    else (.done (some page), counted)
  else if reached caps.scanned counted.scanned then (.done (some page), counted)
  else (result, counted)

end Caps

namespace Retry

/-- A back-off stage's settings. The number of retries must not be negative when it is set. -/
def make (policy : Policy) (maxRetries : Value) (operation : Text) : Except Fault Retry := do
  if maxRetries.isNull then return { policy, maxRetries := none, operation }
  let most ← Policy.setting maxRetries (.int 0) .retriesNegative
  return { policy, maxRetries := some most, operation }

def isExhausted (retry : Retry) (attempts : Nat) : Except Fault Bool :=
  match retry.maxRetries with
  | some most => most.below (.int attempts)
  | none => .ok false

/-- What follows the given number of throttled calls in a row: a waiting time, or the fault that ends
the run. -/
def next (retry : Retry) (attempts : Nat) : Except Fault Number := do
  if ← retry.isExhausted attempts then throw (.retriesExhausted retry.operation attempts)
  retry.policy.delay (.int attempts)

def waiting (seconds : Number) : List Event :=
  if seconds.isPositive then [.slept seconds] else []

/-- Calls until a call is not throttled, after the given number of throttled ones. At most `fuel` more
throttled calls are followed by another. -/
def loop {σ : Type} (retry : Retry) (inner : σ → Run σ StepResult) : Nat → Nat → σ → Run σ StepResult
  | 0, _, state => inner state
  | fuel + 1, attempts, state =>
    let run := inner state
    match run.outcome with
    | .error (.throttled _ _) =>
      match retry.next (attempts + 1) with
      | .error fault => { run with outcome := .error fault }
      | .ok seconds =>
        (loop retry inner fuel (attempts + 1) run.state).after (run.events ++ waiting seconds)
    | _ => run

end Retry

namespace Stage

def newLimit (caps : Caps) : Stage := .limit caps ⟨0, 0⟩

def started (key : Value) (request : Record) : Record :=
  if key.isTruthy then request.put "ExclusiveStartKey" key else request

/-- The result of a start-key stage and the key that it stores: without a key to go on after, the
reading ends. -/
def settleKey (key : Value) (result : StepResult) : StepResult × Value :=
  match result.page? with
  | none => (result, key)
  | some page =>
    if page.lastKey.isTruthy then (result, page.lastKey) else (.done (some page), page.lastKey)

def settleTally (caps : Caps) (tally : Tally) (result : StepResult) : StepResult × Tally :=
  match result.page? with
  | none => (result, tally)
  | some page => caps.settle tally result page

/-- Changes the result of a run, and the stage with it; a run that ended in a fault leaves the stage as
it was. -/
def settled {σ α : Type} (stage : Stage) (rebuild : α → Stage) (settle : StepResult → StepResult × α)
    (run : Run σ StepResult) : Run (Stage × σ) StepResult :=
  match run.outcome with
  | .error fault => { outcome := .error fault, events := run.events, state := (stage, run.state) }
  | .ok result =>
    let (result, kept) := settle result
    { outcome := .ok result, events := run.events, state := (rebuild kept, run.state) }

/-- The event of a note: the label with what it marks. -/
def noting (label mark : Text) : Event := .noted (label ++ ":" ++ mark)

/-- Runs a stage around the inner steps. `patience` bounds the calls that the inner steps throttle. -/
def around {σ : Type} (stage : Stage) (patience : σ → Nat) (inner : Record → σ → Run σ StepResult)
    (request : Record) (state : σ) : Run (Stage × σ) StepResult :=
  match stage with
  | .startKey key =>
    settled stage .startKey (settleKey key) (inner (started key request) state)
  | .limit caps tally =>
    if caps.usedUp tally then { outcome := .ok (.done none), events := [], state := (stage, state) }
    else settled stage (.limit caps) (settleTally caps tally) (inner (caps.limited tally request) state)
  | .backoff retry =>
    (retry.loop (inner request) (patience state) 0 state).mapState ((stage, ·))
  | .note label =>
    let run := (inner request state).mapState ((stage, ·))
    let closing := if run.outcome matches .ok _ then [noting label "after"] else []
    { run with events := noting label "before" :: run.events ++ closing }
  | .finish =>
    settled stage (fun _ : Unit => stage) (fun result => (.done result.page?, ())) (inner request state)
  | .skip => { outcome := .ok (.done none), events := [], state := (stage, state) }

end Stage

end TableQuery
