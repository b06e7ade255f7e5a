/- Runs of a pipeline: what a step gives, what happens on the way, and the services at the end. -/

import TableQuery.Backoff.Policy
import TableQuery.Page

set_option autoImplicit false
set_option relaxedAutoImplicit false

namespace TableQuery

/-- A step gives a page after which there is more, or it ends the reading, with or without a page. -/
inductive StepResult where
  | more (page : Page)
  | done (page : Option Page)
  deriving Repr

namespace StepResult

def page? : StepResult → Option Page
  | .more page => some page
  | .done page => page

end StepResult

/-- What can be observed of a run: requests, waiting times and notes, in order. -/
inductive Event where
  | sent (request : Record)
  | slept (seconds : Number)
  | noted (note : Text)
  deriving Repr

namespace Event

def request? : Event → Option Record
  | .sent request => some request
  | _ => none

def seconds? : Event → Option Number
  | .slept seconds => some seconds
  | _ => none

def note? : Event → Option Text
  | .noted note => some note
  | _ => none

end Event

/-- A run has an outcome, the events on its way, and the state that it leaves. A run that ends in a
fault leaves a state as well. -/
structure Run (σ α : Type) where
  outcome : Except Fault α
  events : List Event
  state : σ

namespace Run

def mapState {σ τ α : Type} (f : σ → τ) (run : Run σ α) : Run τ α :=
  { outcome := run.outcome, events := run.events, state := f run.state }

def after {σ α : Type} (events : List Event) (run : Run σ α) : Run σ α :=
  { run with events := events ++ run.events }

end Run

/-- A service answers requests with pages. Its patience bounds how many more calls it throttles before
it gives an answer of another kind. -/
structure Service (σ : Type) where
  answer : Record → σ → Except Fault Page × σ
  patience : σ → Nat

namespace Service

/-- The innermost step: the service answers, and there may be more. -/
def send {σ : Type} (service : Service σ) (request : Record) (state : σ) : Run σ StepResult :=
  let (outcome, state) := service.answer request state
  { outcome := outcome.map .more, events := [.sent request], state }

end Service

/-- A service that answers from a list, and has no answer when the list is used up. -/
def listService : Service (List (Except Fault Page)) where
  answer := fun _ answers =>
    match answers with
    | [] => (.error (.unmet .scriptExhausted), [])
    | answer :: rest => (answer, rest)
  patience := List.length

end TableQuery
