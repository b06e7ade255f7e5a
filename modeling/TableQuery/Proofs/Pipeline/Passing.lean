/- What comes of a request on its way through the stages of a pipeline.

   On the way in each stage sends the request on or rests, and on the way out each stage passes on what it
   was given. A fault passes out as a fault and leaves every stage as it was, and so does an end without a
   page; a page after which there is more passes out as it is, or as an end. Together with the repeated calls
   of back-off stages this tells what the innermost step is asked for, and what comes of its answers. -/

import Mathlib.Data.List.Forall2
import TableQuery.Proofs.Pipeline.Watching

set_option autoImplicit false
set_option relaxedAutoImplicit false

namespace TableQuery

/-- An innermost step of any outcome, with a bound for the calls in a row that it throttles. -/
structure Innermost (σ : Type) where
  answer : Record → σ → Except Fault StepResult × σ
  patience : σ → Nat

namespace Innermost

variable {σ : Type}

def ask (innermost : Innermost σ) (request : Record) (state : σ) : Run σ StepResult :=
  let (outcome, state) := innermost.answer request state
  { outcome, events := [.sent request], state }

/-- An innermost step that writes down what it is asked for and what it answers. -/
def recorded (innermost : Innermost σ) : Innermost (σ × List Exchange) where
  answer := fun request state =>
    let (outcome, next) := innermost.answer request state.1
    (outcome, next, state.2 ++ [⟨request, outcome⟩])
  patience := fun state => innermost.patience state.1

end Innermost

def Service.innermost {σ : Type} (service : Service σ) : Innermost σ where
  answer := fun request state =>
    let (outcome, state) := service.answer request state
    (outcome.map .more, state)
  patience := service.patience

/-- The counts of a limit stage are strictly below each cap that is set. -/
def Caps.Below (caps : Caps) (tally : Tally) : Prop :=
  (∀ cap, caps.records = some cap → tally.records < cap) ∧
    ∀ cap, caps.scanned = some cap → tally.scanned < cap

private theorem Caps.below_iff {caps : Caps} {tally : Tally} : caps.Below tally ↔ caps.full tally = false := by
  obtain ⟨_ | records, _ | scanned, batch⟩ := caps <;> simp [Below, full, reached]

namespace Stage

/-- The request that a stage sends on, unless it rests. -/
def outgoing : Stage → Record → Option Record
  | .startKey key, request => some (started key request)
  | .limit caps tally, request => if caps.usedUp tally then none else some (caps.limited tally request)
  | .skip, _ => none
  | _, request => some request

/-- How a stage that passes on a page after which there is more goes on: a start-key stage has the key of the
page, and a limit stage has something left of each of its caps. -/
inductive GoesOn (page : Page) : Stage → Stage → Prop
  | startKey (key : Value) (truthy : page.lastKey.isTruthy = true) :
    GoesOn page (.startKey key) (.startKey page.lastKey)
  | limit {caps : Caps} (tally : Tally) {counted : Tally} (below : caps.Below counted) :
    GoesOn page (.limit caps tally) (.limit caps counted)
  | backoff (retry : Retry) : GoesOn page (.backoff retry) (.backoff retry)
  | note (label : Text) : GoesOn page (.note label) (.note label)

private theorem GoesOn.outgoing {page : Page} {stage left : Stage} (goesOn : stage.GoesOn page left)
    (request : Record) : ∃ sent, left.outgoing request = some sent := by
  cases goesOn with
  | limit tally below => exact ⟨_, by rw [Stage.outgoing, Caps.usedUp_eq_full, Caps.below_iff.mp below]; rfl⟩
  | _ => exact ⟨_, rfl⟩

end Stage

namespace Pipeline

/-- Runs the outermost `depth` stages around the rest of the pipeline and an innermost step. -/
def through {σ : Type} (innermost : Innermost σ) :
    Nat → Record → List Stage × σ → Run (List Stage × σ) StepResult
  | depth + 1, request, (stage :: rest, state) =>
    (stage.around (fun inner => innermost.patience inner.2) (through innermost depth) request
      (rest, state)).mapState fun (stage, rest, state) => (stage :: rest, state)
  | _, request, (stages, state) => (innermost.ask request state).mapState ((stages, ·))

private theorem runDepth_eq_through {σ : Type} (service : Service σ) (depth : Nat) :
    runDepth service depth = through service.innermost depth := by
  induction depth with
  | zero => rfl
  | succ depth ih =>
    funext request ⟨stages, state⟩
    cases stages with
    | nil => rfl
    | cons stage rest =>
      rw [runDepth, through, ih]
      rfl

theorem run_eq_through {σ : Type} (service : Service σ) (stages : List Stage) (request : Record) (state : σ) :
    run service stages request state = through service.innermost stages.length request (stages, state) :=
  congrFun (congrFun (runDepth_eq_through service stages.length) request) (stages, state)

private theorem through_recorded_erased {σ : Type} (innermost : Innermost σ) (depth : Nat) (request : Record)
    (told : List Stage × σ × List Exchange) :
    through innermost depth request (told.1, told.2.1) =
      (through innermost.recorded depth request told).mapState fun told => (told.1, told.2.1) := by
  induction depth generalizing request told with
  | zero => rfl
  | succ depth ih =>
    obtain ⟨_ | ⟨stage, rest⟩, state, log⟩ := told
    · rfl
    · have inside := stage.around_mapState (fun told : List Stage × σ × List Exchange => (told.1, told.2.1))
        (fun inner => innermost.patience inner.2) ih request (rest, state, log)
      rw [through, inside]
      rfl

/-- The request that stages send to the innermost step, unless one of them rests. -/
def outgoing : List Stage → Record → Option Record
  | [], request => some request
  | stage :: rest, request => (stage.outgoing request).bind (outgoing rest)

theorem outgoing_of_goesOn {page : Page} {stages after : List Stage}
    (goesOn : List.Forall₂ (Stage.GoesOn page) stages after) (request : Record) :
    ∃ sent, outgoing after request = some sent := by
  induction goesOn generalizing request with
  | nil => exact ⟨request, rfl⟩
  | cons first _ ih =>
    obtain ⟨between, sends⟩ := first.outgoing request
    obtain ⟨sent, later⟩ := ih between
    exact ⟨sent, by rw [outgoing, sends, Option.bind_some, later]⟩

/-- How stages pass on what they are given, and which stages are left. -/
inductive Passes (stages : List Stage) : Except Fault StepResult → Except Fault StepResult → List Stage → Prop
  | fault (given fault : Fault) : Passes stages (.error given) (.error fault) stages
  | nothing : Passes stages (.ok (.done none)) (.ok (.done none)) stages
  | ends {result : StepResult} (brings : result.page?.isSome) (page : Page) (after : List Stage) :
    Passes stages (.ok result) (.ok (.done (some page))) after
  | goesOn {page : Page} {after : List Stage} (all : List.Forall₂ (Stage.GoesOn page) stages after) :
    Passes stages (.ok (.more page)) (.ok (.more page)) after

namespace Passes

private theorem kept {stages after : List Stage} {result : StepResult} {page : Page}
    (brings : result.page? = some page) (all : List.Forall₂ (Stage.GoesOn page) stages after) :
    Passes stages (.ok result) (.ok result) after := by
  cases result with
  | more given =>
    obtain rfl : given = page := Option.some.inj brings
    exact .goesOn all
  | done given =>
    obtain rfl : given = some page := brings
    exact .ends rfl page after

private theorem of_no_page {stages : List Stage} {result : StepResult} (brings : result.page? = none) :
    Passes stages (.ok result) (.ok result) stages := by
  cases result with
  | more page => cases brings
  | done page =>
    obtain rfl : page = none := brings
    exact .nothing

private theorem same {stages : List Stage} (all : ∀ page, List.Forall₂ (Stage.GoesOn page) stages stages)
    (given : Except Fault StepResult) : Passes stages given given stages := by
  cases given with
  | error fault => exact .fault fault fault
  | ok result =>
    cases brings : result.page? with
    | none => exact .of_no_page brings
    | some page => exact .kept brings (all page)

private theorem of_error {stages after : List Stage} {given : Except Fault StepResult} {fault : Fault}
    (passes : Passes stages given (.error fault) after) :
    after = stages ∧ ∃ first, given = .error first := by
  cases passes with
  | fault first => exact ⟨rfl, first, rfl⟩

private theorem cons {stage left : Stage} {stages after : List Stage}
    {given between outcome : Except Fault StepResult} (inside : Passes stages given between after)
    (outside : Passes [stage] between outcome [left]) :
    Passes (stage :: stages) given outcome (left :: after) := by
  cases inside with
  | fault given between =>
    cases outside with
    | fault _ fault => exact .fault given fault
  | nothing =>
    cases outside with
    | nothing => exact .nothing
    | ends brings => cases brings
  | ends brings page after =>
    cases outside with
    | ends _ page => exact .ends brings page _
  | goesOn all =>
    cases outside with
    | ends brings page => exact .ends brings page _
    | goesOn first => exact .goesOn (.cons (List.forall₂_cons.mp first).1 all)

end Passes

private theorem settleKey_passes (key : Value) (result : StepResult) :
    Passes [.startKey key] (.ok result) (.ok (Stage.settleKey key result).1)
      [.startKey (Stage.settleKey key result).2] := by
  unfold Stage.settleKey
  cases brings : result.page? with
  | none => exact .of_no_page brings
  | some page =>
    dsimp only
    split
    · rename_i truthy
      exact .kept brings (.cons (.startKey key truthy) .nil)
    · exact .ends (by rw [brings, Option.isSome_some]) page _

private theorem settleTally_passes (caps : Caps) (tally : Tally) (result : StepResult) :
    Passes [.limit caps tally] (.ok result) (.ok (Stage.settleTally caps tally result).1)
      [.limit caps (Stage.settleTally caps tally result).2] := by
  unfold Stage.settleTally
  cases brings : result.page? with
  | none => exact .of_no_page brings
  | some page =>
    dsimp only
    cases full : caps.full (tally.plus page) with
    | true =>
      rw [Caps.settle_of_full result full]
      exact .ends (by rw [brings, Option.isSome_some]) _ _
    | false =>
      rw [Caps.settle_of_not_full result full]
      exact .kept brings (.cons (.limit tally (Caps.below_iff.mpr full)) .nil)

private theorem finish_passes (result : StepResult) :
    Passes [.finish] (.ok result) (.ok (.done result.page?)) [.finish] := by
  cases brings : result.page? with
  | none =>
    have ended : result = .done none := by
      cases result with
      | more page => cases brings
      | done page => exact congrArg StepResult.done brings
    rw [ended]
    exact .nothing
  | some page => exact .ends (by rw [brings, Option.isSome_some]) page _

private theorem backoff_passes (retry : Retry) (given : Except Fault StepResult) :
    Passes [.backoff retry] given given [.backoff retry] :=
  .same (fun _ => .cons (.backoff retry) .nil) given

private theorem note_passes (label : Text) (given : Except Fault StepResult) :
    Passes [.note label] given given [.note label] :=
  .same (fun _ => .cons (.note label) .nil) given

/-- What comes of a request through stages: a stage rests and nothing is asked for; or the same request is
sent until an answer is no fault or no more calls follow, and the last answer is passed on. -/
inductive Comes (stages : List Stage) (request : Record) :
    List Exchange → Except Fault StepResult → List Stage → Prop
  | rests (resting : outgoing stages request = none) : Comes stages request [] (.ok (.done none)) stages
  | asks {sent : Record} (sends : outgoing stages request = some sent) {failed : List Exchange}
    {last : Exchange} (alike : ∀ exchange ∈ failed ++ [last], exchange.request = sent)
    (faults : ∀ exchange ∈ failed, ∃ fault, exchange.outcome = .error fault)
    {outcome : Except Fault StepResult} {after : List Stage}
    (passes : Passes stages last.outcome outcome after) :
    Comes stages request (failed ++ [last]) outcome after

namespace Comes

variable {stages after : List Stage} {request : Record} {exchanges : List Exchange}
  {outcome : Except Fault StepResult}

private theorem cons {stage left : Stage} {sent : Record} {between : Except Fault StepResult}
    (comes : Comes stages sent exchanges between after) (sends : stage.outgoing request = some sent)
    (outside : Passes [stage] between outcome [left]) :
    Comes (stage :: stages) request exchanges outcome (left :: after) := by
  have onward : outgoing (stage :: stages) request = outgoing stages sent := by
    rw [outgoing, sends, Option.bind_some]
  cases comes with
  | rests resting =>
    cases outside with
    | nothing => exact .rests (onward.trans resting)
    | ends brings => cases brings
  | asks inner alike faults passes => exact .asks (onward.trans inner) alike faults (passes.cons outside)

theorem of_fault {fault : Fault} (comes : Comes stages request exchanges (.error fault) after) :
    after = stages ∧ exchanges ≠ [] ∧ ∃ sent, outgoing stages request = some sent ∧
      (∀ exchange ∈ exchanges, exchange.request = sent) ∧
      ∀ exchange ∈ exchanges, ∃ fault, exchange.outcome = .error fault := by
  generalize given : (Except.error fault : Except Fault StepResult) = outcome at comes
  cases comes with
  | rests => cases given
  | @asks sent sends failed last alike faults _ _ passes =>
    subst given
    obtain ⟨rfl, first⟩ := passes.of_error
    refine ⟨rfl, by simp, sent, sends, alike, ?_⟩
    exact List.forall_mem_append.mpr ⟨faults, List.forall_mem_singleton.mpr first⟩

private theorem again {fault : Fault} {left : List Stage} {later : List Exchange}
    (first : Comes stages request exchanges (.error fault) after)
    (second : Comes after request later outcome left) :
    Comes stages request (exchanges ++ later) outcome left := by
  obtain ⟨rfl, -, sent, sends, alike, faults⟩ := first.of_fault
  cases second with
  | rests resting => cases resting.symm.trans sends
  | asks sends' alike' faults' passes =>
    obtain rfl := Option.some.inj (sends.symm.trans sends')
    rw [← List.append_assoc]
    refine .asks sends ?_ (List.forall_mem_append.mpr ⟨faults, faults'⟩) passes
    rw [List.append_assoc]
    exact List.forall_mem_append.mpr ⟨alike, alike'⟩

private theorem fault {fault other : Fault} (comes : Comes stages request exchanges (.error fault) after) :
    Comes stages request exchanges (.error other) after := by
  generalize given : (Except.error fault : Except Fault StepResult) = outcome at comes
  cases comes with
  | rests => cases given
  | @asks _ sends _ last alike faults _ _ passes =>
    subst given
    obtain ⟨rfl, first, answered⟩ := passes.of_error
    exact .asks sends alike faults (answered ▸ .fault first other)

theorem head?_requests (comes : Comes stages request exchanges outcome after) {sent : Record}
    (sends : outgoing stages request = some sent) :
    (exchanges.map Exchange.request).head? = some sent := by
  cases comes with
  | rests resting => cases resting.symm.trans sends
  | @asks other sends' failed last alike =>
    obtain rfl := Option.some.inj (sends'.symm.trans sends)
    cases failed with
    | nil => exact congrArg some (alike last List.mem_cons_self)
    | cons first rest => exact congrArg some (alike first List.mem_cons_self)

end Comes

/-- A run through stages tells what comes of its request: the exchanges are written down, and their requests
are those that were sent. -/
def Tells {σ : Type} (stages : List Stage) (request : Record) (log : List Exchange)
    (run : Run (List Stage × σ × List Exchange) StepResult) : Prop :=
  ∃ exchanges, run.state.2.2 = log ++ exchanges ∧
    run.events.filterMap Event.request? = exchanges.map Exchange.request ∧
    Comes stages request exchanges run.outcome run.state.1

section

variable {σ : Type} {stages : List Stage} {request : Record} {log : List Exchange}

private theorem settled_tells {α : Type} {stage : Stage} (rebuild : α → Stage) (settle : StepResult → StepResult × α)
    {sent : Record} (sends : stage.outgoing request = some sent)
    (passes : ∀ result, Passes [stage] (.ok result) (.ok (settle result).1) [rebuild (settle result).2])
    {run : Run (List Stage × σ × List Exchange) StepResult} (tells : Tells stages sent log run) :
    Tells (stage :: stages) request log
      ((stage.settled rebuild settle run).mapState fun (stage, rest, state) => (stage :: rest, state)) := by
  obtain ⟨exchanges, written, sent, comes⟩ := tells
  unfold Stage.settled
  cases outcome : run.outcome with
  | error fault =>
    rw [outcome] at comes
    exact ⟨exchanges, written, sent, comes.cons sends (.fault fault fault)⟩
  | ok result =>
    rw [outcome] at comes
    exact ⟨exchanges, written, sent, comes.cons sends (passes result)⟩

theorem filterMap_request?_waiting (seconds : Number) :
    (Retry.waiting seconds).filterMap Event.request? = [] := by
  unfold Retry.waiting
  split <;> rfl

/-- Calls that are repeated tell what comes of the request, if each of them does. -/
private theorem loop_tells (retry : Retry)
    {inner : List Stage × σ × List Exchange → Run (List Stage × σ × List Exchange) StepResult}
    (tells : ∀ state log, Tells stages request log (inner (stages, state, log))) (fuel attempts : Nat)
    (state : σ) (log : List Exchange) :
    Tells stages request log (retry.loop inner fuel attempts (stages, state, log)) := by
  induction fuel generalizing attempts state log with
  | zero => exact tells state log
  | succ fuel ih =>
    rw [Retry.loop]
    split
    · rename_i code description throttled
      obtain ⟨exchanges, written, sent, comes⟩ := tells state log
      rw [throttled] at comes
      split
      · exact ⟨exchanges, written, sent, comes.fault⟩
      · -- A throttled call leaves the stages as they were; the next call goes on with the longer log.
        generalize called : inner (stages, state, log) = run at written sent comes
        obtain ⟨outcome, events, left, next, log'⟩ := run
        obtain ⟨rfl, -⟩ := comes.of_fault
        obtain rfl : log' = log ++ exchanges := written
        obtain ⟨later, written', sent', comes'⟩ := ih (attempts + 1) next (log ++ exchanges)
        refine ⟨exchanges ++ later, written'.trans (List.append_assoc ..), ?_, comes.again comes'⟩
        rw [Run.after, List.filterMap_append, List.filterMap_append, filterMap_request?_waiting,
          List.append_nil, sent, sent', List.map_append]
    · exact tells state log

private theorem around_tells (stage : Stage) (patience : List Stage × σ × List Exchange → Nat)
    {inner : Record → List Stage × σ × List Exchange → Run (List Stage × σ × List Exchange) StepResult}
    (tells : ∀ request state log, Tells stages request log (inner request (stages, state, log)))
    (request : Record) (state : σ) (log : List Exchange) :
    Tells (stage :: stages) request log
      ((stage.around patience inner request (stages, state, log)).mapState
        fun (stage, rest, state) => (stage :: rest, state)) := by
  cases stage with
  | startKey key => exact settled_tells _ _ rfl (settleKey_passes key) (tells _ state log)
  | limit caps tally =>
    rw [Stage.around]
    cases usedUp : caps.usedUp tally with
    | true =>
      rw [if_pos rfl]
      refine ⟨[], (List.append_nil log).symm, rfl, .rests ?_⟩
      rw [outgoing, Stage.outgoing, if_pos usedUp, Option.bind_none]
    | false =>
      rw [if_neg Bool.false_ne_true]
      refine settled_tells _ _ ?_ (settleTally_passes caps tally) (tells _ state log)
      rw [Stage.outgoing, usedUp, if_neg Bool.false_ne_true]
  | backoff retry =>
    obtain ⟨exchanges, written, sent, comes⟩ :=
      loop_tells retry (tells request) (patience (stages, state, log)) 0 state log
    exact ⟨exchanges, written, sent, comes.cons rfl (backoff_passes retry _)⟩
  | note label =>
    obtain ⟨exchanges, written, sent, comes⟩ := tells request state log
    refine ⟨exchanges, written, ?_, comes.cons rfl (note_passes label _)⟩
    rw [← sent]
    cases outcome : (inner request (stages, state, log)).outcome <;>
      simp [Stage.around, Run.mapState, Stage.noting, List.filterMap_cons, Event.request?, outcome]
  | finish => exact settled_tells _ _ rfl finish_passes (tells _ state log)
  | skip => exact ⟨[], (List.append_nil log).symm, rfl, .rests rfl⟩

end

private theorem through_recorded_tells {σ : Type} (innermost : Innermost σ) (stages : List Stage) (request : Record)
    (state : σ) (log : List Exchange) :
    Tells stages request log (through innermost.recorded stages.length request (stages, state, log)) := by
  induction stages generalizing request state log with
  | nil =>
    have alone : Comes [] request [⟨request, (innermost.answer request state).1⟩]
        (innermost.answer request state).1 [] :=
      @Comes.asks [] request request rfl [] _ (List.forall_mem_singleton.mpr rfl)
        (fun exchange member => absurd member List.not_mem_nil) _ _ (.same (fun _ => .nil) _)
    exact ⟨_, rfl, rfl, alone⟩
  | cons stage rest ih => exact around_tells stage _ ih request state log

/-- What is written down during a run through stages is what comes of its request. -/
theorem through_comes {σ : Type} (innermost : Innermost σ) (stages : List Stage) (request : Record)
    (state : σ) :
    let run := through innermost stages.length request (stages, state)
    ∃ exchanges,
      through innermost.recorded stages.length request (stages, state, []) =
        run.mapState (fun (stages, state) => (stages, state, exchanges)) ∧
      run.events.filterMap Event.request? = exchanges.map Exchange.request ∧
      Comes stages request exchanges run.outcome run.state.1 := by
  obtain ⟨exchanges, written, sent, comes⟩ := through_recorded_tells innermost stages request state []
  have erased := through_recorded_erased innermost stages.length request (stages, state, [])
  dsimp only at erased ⊢
  rw [erased]
  refine ⟨exchanges, ?_, sent, comes⟩
  rw [List.nil_append] at written
  rw [← written]
  rfl

end Pipeline

end TableQuery
