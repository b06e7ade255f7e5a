/- Watching one stage of a pipeline.

   A stage is called by the stages around it, and calls the steps inside it. A watched pipeline runs as the
   pipeline itself does, and besides writes down the calls of the stage at one place: what the stage asked
   for, what it was given, and what it gave. -/

import TableQuery.Proofs.Paging.Step

set_option autoImplicit false
set_option relaxedAutoImplicit false

namespace TableQuery

/-- The page that steps bring, if they bring one. -/
def StepResult.broughtBy? : Except Fault StepResult → Option Page
  | .ok result => result.page?
  | .error _ => none

/-- What a stage asked of the steps inside it, and what they gave. -/
structure Exchange where
  request : Record
  outcome : Except Fault StepResult

/-- A call of a stage: the stage before it and after it, what it asked of the steps inside it, and what it
gave. -/
structure Call where
  before : Stage
  exchanges : List Exchange
  outcome : Except Fault StepResult
  after : Stage

/-- A run that brings nothing, sends nothing and leaves the state as it was. -/
structure Run.Idle {σ : Type} (run : Run σ StepResult) (state : σ) : Prop where
  outcome : run.outcome = .ok (.done none)
  unsent : run.events.filterMap Event.request? = []
  unchanged : run.state = state

private theorem Run.Idle.mapState {σ τ : Type} {run : Run σ StepResult} {state : σ} (idle : run.Idle state)
    (f : σ → τ) : (run.mapState f).Idle (f state) :=
  ⟨idle.outcome, idle.unsent, congrArg f idle.unchanged⟩

section

variable {σ τ : Type}

private theorem Retry.loop_keeps (retry : Retry) {inner : σ → Run σ StepResult} {P : σ → Prop}
    (keeps : ∀ state, P state → P (inner state).state) (fuel attempts : Nat) {state : σ} (h : P state) :
    P (retry.loop inner fuel attempts state).state := by
  induction fuel generalizing attempts state with
  | zero => exact keeps state h
  | succ fuel ih =>
    rw [loop]
    split
    · split
      · exact keeps state h
      · exact ih _ (keeps state h)
    · exact keeps state h

namespace Stage

private theorem settled_mapState {α : Type} (stage : Stage) (rebuild : α → Stage)
    (settle : StepResult → StepResult × α) (run : Run σ StepResult) (view : σ → τ) :
    settled stage rebuild settle (run.mapState view) =
      (settled stage rebuild settle run).mapState (Prod.map id view) := by
  unfold settled
  cases outcome : run.outcome <;> simp [Run.mapState, outcome]

private theorem settled_state {α : Type} (stage : Stage) (rebuild : α → Stage)
    (settle : StepResult → StepResult × α) (run : Run σ StepResult) :
    (settled stage rebuild settle run).state.2 = run.state := by
  unfold settled
  cases outcome : run.outcome <;> rfl

theorem around_mapState (stage : Stage) (view : σ → τ) (patience : τ → Nat)
    {inner : Record → σ → Run σ StepResult} {outer : Record → τ → Run τ StepResult}
    (steps : ∀ request state, outer request (view state) = (inner request state).mapState view)
    (request : Record) (state : σ) :
    stage.around patience outer request (view state) =
      (stage.around (fun state => patience (view state)) inner request state).mapState
        (Prod.map id view) := by
  cases stage with
  | startKey key => simp only [around, steps, settled_mapState]
  | limit caps tally =>
    simp only [around, steps, settled_mapState]
    split <;> rfl
  | backoff retry =>
    rw [around, retry.loop_mapState (inner request) view (outer request) (steps request)]
    rfl
  | note label =>
    simp only [around, steps]
    rfl
  | finish => simp only [around, steps, settled_mapState]
  | skip => rfl

private theorem around_keeps (stage : Stage) (patience : σ → Nat) {inner : Record → σ → Run σ StepResult}
    {P : σ → Prop} (keeps : ∀ request state, P state → P (inner request state).state)
    (request : Record) {state : σ} (h : P state) :
    P (stage.around patience inner request state).state.2 := by
  cases stage with
  | startKey key =>
    rw [around, settled_state]
    exact keeps _ state h
  | limit caps tally =>
    rw [around]
    split
    · exact h
    · rw [settled_state]
      exact keeps _ state h
  | backoff retry => exact retry.loop_keeps (keeps request) _ _ h
  | note label => exact keeps request state h
  | finish =>
    rw [around, settled_state]
    exact keeps request state h
  | skip => exact h

private theorem around_idle (stage : Stage) (patience : σ → Nat) {inner : Record → σ → Run σ StepResult}
    {state : σ} (idle : ∀ request, (inner request state).Idle state) (request : Record) :
    (stage.around patience inner request state).Idle (stage, state) := by
  cases stage with
  | startKey key =>
    obtain ⟨outcome, unsent, unchanged⟩ := idle (started key request)
    simp only [around, settled, outcome]
    exact ⟨rfl, unsent, congrArg _ unchanged⟩
  | limit caps tally =>
    obtain ⟨outcome, unsent, unchanged⟩ := idle (caps.limited tally request)
    simp only [around, settled, outcome]
    split
    · exact ⟨rfl, rfl, rfl⟩
    · exact ⟨rfl, unsent, congrArg _ unchanged⟩
  | backoff retry =>
    obtain ⟨outcome, unsent, unchanged⟩ := idle request
    rw [around, Retry.loop_of_not_throttled _ _ _ _ _ (by simp [outcome])]
    exact ⟨outcome, unsent, congrArg _ unchanged⟩
  | note label =>
    obtain ⟨outcome, unsent, unchanged⟩ := idle request
    refine ⟨outcome, ?_, congrArg _ unchanged⟩
    simp [around, Run.mapState, noting, outcome, List.filterMap_cons, Event.request?, unsent]
  | finish =>
    obtain ⟨outcome, unsent, unchanged⟩ := idle request
    simp only [around, settled, outcome]
    exact ⟨rfl, unsent, congrArg _ unchanged⟩
  | skip => exact ⟨rfl, rfl, rfl⟩

end Stage

/-- Steps that write down what they are asked for and what they give. -/
def Exchange.recorded (inner : Record → σ → Run σ StepResult) (request : Record)
    (state : σ × List Exchange) : Run (σ × List Exchange) StepResult :=
  let run := inner request state.1
  run.mapState ((·, state.2 ++ [⟨request, run.outcome⟩]))

private theorem Exchange.recorded_erased (inner : Record → σ → Run σ StepResult) (request : Record)
    (state : σ × List Exchange) :
    inner request state.1 = (recorded inner request state).mapState Prod.fst := rfl

/-- A stage around steps, with its call written down. -/
def Stage.recorded (stage : Stage) (patience : σ → Nat) (inner : Record → σ → Run σ StepResult)
    (request : Record) (state : σ × List Call) : Run (Stage × σ × List Call) StepResult :=
  let run := stage.around (fun state => patience state.1) (Exchange.recorded inner) request (state.1, [])
  run.mapState fun (after, inner, exchanges) =>
    (after, inner, state.2 ++ [⟨stage, exchanges, run.outcome, after⟩])

private theorem Stage.recorded_erased (stage : Stage) (patience : σ → Nat)
    (inner : Record → σ → Run σ StepResult) (request : Record) (state : σ × List Call) :
    (stage.recorded patience inner request state).mapState (Prod.map id Prod.fst) =
      stage.around patience inner request state.1 := by
  have erased := stage.around_mapState Prod.fst patience (Exchange.recorded_erased inner) request
    (state.1, [])
  rw [erased]
  rfl

end

namespace Pipeline

variable {σ : Type} (service : Service σ)

/-- Runs a pipeline through its outermost stages, and writes down the calls of the stage at a place. -/
def watchDepth : Nat → Nat → Record → List Stage × σ × List Call →
    Run (List Stage × σ × List Call) StepResult
  | 0, depth + 1, request, (stage :: rest, state, calls) =>
    (stage.recorded (fun inner => service.patience inner.2) (runDepth service depth) request
      ((rest, state), calls)).mapState
      fun (stage, (rest, state), calls) => (stage :: rest, state, calls)
  | place + 1, depth + 1, request, (stage :: rest, state) =>
    (stage.around (fun inner => service.patience inner.2.1) (watchDepth place depth) request
      (rest, state)).mapState fun (stage, rest, state) => (stage :: rest, state)
  | _, _, request, (stages, state, calls) =>
    (service.send request state).mapState fun state => (stages, state, calls)

def erase (watched : List Stage × σ × List Call) : List Stage × σ := (watched.1, watched.2.1)

/-- A watched pipeline runs as the pipeline does. -/
private theorem watchDepth_erased (place depth : Nat) (request : Record) (watched : List Stage × σ × List Call) :
    (watchDepth service place depth request watched).mapState erase =
      runDepth service depth request (erase watched) := by
  induction depth generalizing place request watched with
  | zero => cases place <;> rfl
  | succ depth ih =>
    obtain ⟨_ | ⟨stage, rest⟩, state, calls⟩ := watched
    · cases place <;> rfl
    · cases place with
      | zero =>
        rw [watchDepth, erase, runDepth, ← stage.recorded_erased _ _ _ ((rest, state), calls)]
        rfl
      | succ place =>
        -- The log is part of the state of the steps inside, which the stage does not see.
        have inside := stage.around_mapState erase (fun inner => service.patience inner.2)
          (fun request watched => (ih place request watched).symm) request (rest, state, calls)
        rw [watchDepth]
        change _ = (stage.around (fun inner => service.patience inner.2) (runDepth service depth) request
          (erase (rest, state, calls))).mapState _
        rw [inside]
        rfl

def after (requests : List Record) (reached : List Stage × σ) : List Stage × σ :=
  requests.foldl (fun reached request => (run service reached.1 request reached.2).state) reached

/-- The stages and the service after the runs of some requests, with the calls of the stage at a place. -/
def watch (place : Nat) (requests : List Record) (watched : List Stage × σ × List Call) :
    List Stage × σ × List Call :=
  requests.foldl (fun watched request =>
    (watchDepth service place watched.1.length request watched).state) watched

theorem watch_erased (place : Nat) (requests : List Record) (watched : List Stage × σ × List Call) :
    erase (watch service place requests watched) = after service requests (erase watched) := by
  refine (List.foldl_hom erase ?_).symm
  intro watched request
  exact congrArg Run.state (watchDepth_erased service place watched.1.length request watched).symm

def runs : List Record → List Stage × σ → List (Run (List Stage × σ) StepResult)
  | [], _ => []
  | request :: rest, reached =>
    let first := run service reached.1 request reached.2
    first :: runs rest first.state

/-- What holds of the stage at a place and of its calls so far. -/
def Stands (P : Stage → List Call → Prop) (place : Nat) (watched : List Stage × σ × List Call) : Prop :=
  ∃ stage, watched.1[place]? = some stage ∧ P stage watched.2.2

section

variable {P : Stage → List Call → Prop}
  (keeps : ∀ (stage : Stage) (patience : List Stage × σ → Nat)
    (inner : Record → List Stage × σ → Run (List Stage × σ) StepResult) (request : Record)
    (state : List Stage × σ) (calls : List Call), P stage calls →
      let run := stage.recorded patience inner request (state, calls)
      P run.state.1 run.state.2.2)

include keeps

/-- What a stage keeps of itself and of its calls, it keeps at any place of a pipeline. -/
private theorem watchDepth_keeps (place depth : Nat) (request : Record) {watched : List Stage × σ × List Call}
    (h : Stands P place watched) :
    Stands P place (watchDepth service place depth request watched).state := by
  induction depth generalizing place request watched with
  | zero => cases place <;> exact h
  | succ depth ih =>
    obtain ⟨_ | ⟨stage, rest⟩, state, calls⟩ := watched
    · cases place <;> exact h
    · cases place with
      | zero =>
        obtain ⟨_, standing, holds⟩ := h
        obtain rfl := Option.some.inj standing
        exact ⟨_, rfl, keeps stage (fun inner => service.patience inner.2) (runDepth service depth) request
          (rest, state) calls holds⟩
      | succ place =>
        have inside : Stands P place (rest, state, calls) := h
        exact stage.around_keeps _ (fun request _ => ih place request) request inside

theorem watch_keeps (place : Nat) (requests : List Record) {watched : List Stage × σ × List Call}
    (h : Stands P place watched) : Stands P place (watch service place requests watched) := by
  induction requests generalizing watched with
  | nil => exact h
  | cons request rest ih => exact ih (watchDepth_keeps service keeps place _ request h)

end

section

variable {stage : Stage}
  (rests : ∀ (patience : List Stage × σ → Nat)
    (inner : Record → List Stage × σ → Run (List Stage × σ) StepResult) (request : Record)
    (state : List Stage × σ), (stage.around patience inner request state).Idle (stage, state))

include rests

private theorem runDepth_idle {place depth : Nat} (reaches : place < depth) (request : Record)
    {stages : List Stage} (state : σ) (standing : stages[place]? = some stage) :
    (runDepth service depth request (stages, state)).Idle (stages, state) := by
  induction depth generalizing place request stages with
  | zero => exact absurd reaches (Nat.not_lt_zero place)
  | succ depth ih =>
    obtain _ | ⟨first, rest⟩ := stages
    · cases standing
    · refine @Run.Idle.mapState _ _ _ (first, rest, state) ?_ _
      cases place with
      | zero =>
        obtain rfl := Option.some.inj standing
        exact rests _ _ request (rest, state)
      | succ place =>
        have inside : rest[place]? = some stage := standing
        exact first.around_idle _ (fun request => ih (by omega) request inside) request

theorem runs_idle {place : Nat} {reached : List Stage × σ} (standing : reached.1[place]? = some stage)
    (requests : List Record) : ∀ run ∈ runs service requests reached, run.Idle reached := by
  induction requests with
  | nil => exact fun run member => absurd member List.not_mem_nil
  | cons request rest ih =>
    have within := (List.getElem?_eq_some_iff.mp standing).1
    have first : (run service reached.1 request reached.2).Idle reached :=
      runDepth_idle service rests within request reached.2 standing
    rw [runs, first.unchanged]
    exact List.forall_mem_cons.mpr ⟨first, ih⟩

end

end Pipeline

end TableQuery
