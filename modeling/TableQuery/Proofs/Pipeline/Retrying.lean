/- Calls that a back-off stage repeats.

   A back-off stage calls the steps inside it again while they are throttled, with a pause after each throttled
   call, until a call is not throttled or one more than the retries allow is. The pauses are counted from the
   first call of the request: what the stage was asked before leaves no mark on it. -/

import TableQuery.Proofs.Paging.Throttling
import TableQuery.Proofs.Pipeline.Watching

set_option autoImplicit false
set_option relaxedAutoImplicit false

namespace TableQuery

/-- The outcome of a call says that it was throttled. -/
def StepResult.Throttled (outcome : Except Fault StepResult) : Prop :=
  ∃ code description, outcome = .error (.throttled code description)

section

variable {σ : Type}

namespace Run

def reached (call : σ → Run σ StepResult) (count : Nat) (state : σ) : σ :=
  (fun state => (call state).state)^[count] state

def nth (call : σ → Run σ StepResult) (count : Nat) (state : σ) : Run σ StepResult :=
  call (reached call count state)

theorem nth_succ (call : σ → Run σ StepResult) (count : Nat) (state : σ) :
    nth call (count + 1) state = nth call count (call state).state := rfl

end Run

/-- Of the calls from a state, exactly so many are throttled before one that is not. -/
structure Burst (call : σ → Run σ StepResult) (count : Nat) (state : σ) : Prop where
  throttled : ∀ n < count, StepResult.Throttled (Run.nth call n state).outcome
  settled : ¬ StepResult.Throttled (Run.nth call count state).outcome

namespace Policy

def delays (policy : Policy) (count : Nat) : List Number :=
  (List.range' 1 count).filterMap fun attempt => (policy.delay (.int attempt)).toOption

/-- The policy gives a number for each of the first attempts. -/
def Delays (policy : Policy) (count : Nat) : Prop :=
  ∀ attempt : Nat, 1 ≤ attempt → attempt ≤ count → ∃ seconds, policy.delay (.int attempt) = .ok seconds

private theorem pauses_eq (policy : Policy) (count : Nat) :
    (List.range' 1 count).flatMap policy.pause =
      ((policy.delays count).filter Number.isPositive).map .slept := by
  rw [delays]
  induction List.range' 1 count with
  | nil => rfl
  | cons attempt attempts ih =>
    rw [List.flatMap_cons, ih, pause]
    cases delay : policy.delay (.int attempt) with
    | error fault => simp [delay, Except.toOption]
    | ok seconds => by_cases positive : seconds.isPositive <;>
        simp [delay, Except.toOption, Retry.waiting, positive]

end Policy

namespace Retry

/-- The settings with a number of retries that is not negative, or with any number of them. -/
def atMost (policy : Policy) (most : Option Nat) (operation : Text) : Retry :=
  { policy, maxRetries := most.map fun n => .int n, operation }

variable {policy : Policy} {most : Option Nat} {operation : Text}

private theorem make_eq_atMost :
    make policy (.ofInt? (most.map Int.ofNat)) operation = .ok (atMost policy most operation) := by
  cases most with
  | none => rfl
  | some n =>
    have unrefused : ¬ (n : Int) < 0 := Int.not_lt.mpr (Int.natCast_nonneg n)
    simp [make, Policy.setting, Value.toNumber, Value.ofInt?, Value.isNull, Value.number?, Number.below,
      Number.less, Except.mapError, atMost, bind, Except.bind, pure, Except.pure, unrefused]

private theorem isExhausted_atMost (attempts : Nat) :
    (atMost policy most operation).isExhausted attempts = .ok (most.any (· < attempts)) := by
  cases most with
  | none => rfl
  | some n => simp [isExhausted, atMost, Number.below, Number.less, Except.mapError]

private theorem next_of_any {attempts : Nat} (more : most.any (· < attempts) = true) :
    (atMost policy most operation).next attempts = .error (.retriesExhausted operation attempts) := by
  rw [next, isExhausted_atMost, more]
  rfl

private theorem next_of_not_any {attempts : Nat} (allowed : most.any (· < attempts) = false) :
    (atMost policy most operation).next attempts = policy.delay (.int attempts) := by
  rw [next, isExhausted_atMost, allowed]
  rfl

private theorem loop_again (retry : Retry) {inner : σ → Run σ StepResult} {state : σ} {attempts : Nat}
    {seconds : Number} (throttled : StepResult.Throttled (inner state).outcome)
    (next : retry.next (attempts + 1) = .ok seconds) (fuel : Nat) :
    retry.loop inner (fuel + 1) attempts state =
      (retry.loop inner fuel (attempts + 1) (inner state).state).after
        ((inner state).events ++ waiting seconds) := by
  obtain ⟨code, description, outcome⟩ := throttled
  rw [loop, outcome]
  simp only [next]

private theorem loop_exhausted (retry : Retry) {inner : σ → Run σ StepResult} {state : σ} {attempts : Nat}
    {fault : Fault} (throttled : StepResult.Throttled (inner state).outcome)
    (next : retry.next (attempts + 1) = .error fault) (fuel : Nat) :
    retry.loop inner (fuel + 1) attempts state = { inner state with outcome := .error fault } := by
  obtain ⟨code, description, outcome⟩ := throttled
  rw [loop, outcome]
  simp only [next]

private theorem delay_of_next {retry : Retry} {attempts : Nat} {seconds : Number}
    (next : retry.next attempts = .ok seconds) : retry.policy.delay (.int attempts) = .ok seconds := by
  obtain ⟨exhausted, -, follows⟩ := bind_eq_ok.mp next
  cases exhausted with
  | true => cases follows
  | false => exact follows

/-- The events of the first calls, with a pause after each of them. -/
def pausing (policy : Policy) (inner : σ → Run σ StepResult) (attempts count : Nat) (state : σ) :
    List Event :=
  (List.range count).flatMap fun n =>
    (Run.nth inner n state).events ++ policy.pause (attempts + (n + 1))

private theorem pausing_succ (policy : Policy) (inner : σ → Run σ StepResult) (attempts count : Nat) (state : σ) :
    pausing policy inner attempts (count + 1) state =
      (inner state).events ++ policy.pause (attempts + 1) ++
        pausing policy inner (attempts + 1) count (inner state).state := by
  rw [pausing, List.range_succ_eq_map, List.flatMap_cons, List.flatMap_map]
  simp only [Run.nth_succ, Nat.succ_eq_add_one, ← Nat.add_assoc, Nat.add_right_comm attempts _ 1]
  rfl

private theorem loop_repeated (retry : Retry) {inner : σ → Run σ StepResult} (count : Nat) {state : σ}
    (fuel : Nat) {attempts : Nat}
    (throttled : ∀ n < count, StepResult.Throttled (Run.nth inner n state).outcome)
    (followed : ∀ n < count, ∃ seconds, retry.next (attempts + (n + 1)) = .ok seconds) :
    retry.loop inner (count + fuel) attempts state =
      (retry.loop inner fuel (attempts + count) (Run.reached inner count state)).after
        (pausing retry.policy inner attempts count state) := by
  induction count generalizing state attempts with
  | zero =>
    rw [Nat.zero_add]
    rfl
  | succ count ih =>
    obtain ⟨seconds, next⟩ := followed 0 (Nat.succ_pos count)
    have first : StepResult.Throttled (inner state).outcome := throttled 0 (Nat.succ_pos count)
    have pause : retry.policy.pause (attempts + 1) = waiting seconds := by
      rw [Policy.pause, delay_of_next next]
    have later := @ih (inner state).state (attempts + 1)
      (fun n within => throttled (n + 1) (Nat.succ_lt_succ within)) (by
        intro n within
        rw [Nat.add_assoc, Nat.add_comm 1]
        exact followed (n + 1) (Nat.succ_lt_succ within))
    rw [Nat.add_right_comm, loop_again retry first next, later, pausing_succ, pause, Nat.add_assoc attempts,
      Nat.add_comm 1 count]
    simp only [Run.after, List.append_assoc]
    rfl

/-- How many of the throttled calls are followed by another: all of them, or as many as there are retries. -/
def retried (most : Option Nat) (throttles : Nat) : Nat := most.elim throttles (min throttles)

private theorem retried_le (most : Option Nat) (throttles : Nat) : retried most throttles ≤ throttles := by
  cases most with
  | none => exact Nat.le_refl throttles
  | some n => exact Nat.min_le_left throttles n

private theorem not_any_of_lt_retried {throttles attempts : Nat} (earlier : attempts < retried most throttles) :
    most.any (· < attempts + 1) = false := by
  cases most with
  | none => rfl
  | some n =>
    have within : min throttles n ≤ n := Nat.min_le_right throttles n
    exact decide_eq_false (Nat.not_lt.mpr (Nat.le_trans earlier within))

private theorem any_of_retried_lt {throttles : Nat} (last : retried most throttles < throttles) :
    most.any (· < retried most throttles + 1) = true := by
  cases most with
  | none => exact absurd last (Nat.lt_irrefl throttles)
  | some n =>
    have fewer : min throttles n < throttles := last
    exact decide_eq_true (show n < min throttles n + 1 by omega)

/-- What becomes of a burst: while retries are left the calls go on to the one that is not throttled, and
otherwise they end with one throttled call more than there are retries. -/
private theorem loop_of_burst (operation : Text) {inner : σ → Run σ StepResult} {throttles : Nat} {state : σ}
    (burst : Burst inner throttles state) {fuel : Nat} (enough : throttles ≤ fuel)
    (delays : policy.Delays (retried most throttles)) :
    (atMost policy most operation).loop inner fuel 0 state =
      { outcome := if retried most throttles < throttles
          then .error (.retriesExhausted operation (retried most throttles + 1))
          else (Run.nth inner throttles state).outcome
        events := pausing policy inner 0 (retried most throttles) state ++
          (Run.nth inner (retried most throttles) state).events
        state := (Run.nth inner (retried most throttles) state).state } := by
  have within := retried_le most throttles
  have followed : ∀ n < retried most throttles,
      ∃ seconds, (atMost policy most operation).next (0 + (n + 1)) = .ok seconds := by
    intro n earlier
    rw [Nat.zero_add, next_of_not_any (not_any_of_lt_retried earlier)]
    exact delays (n + 1) (Nat.succ_pos n) earlier
  obtain ⟨rest, rfl⟩ := Nat.exists_eq_add_of_le (Nat.le_trans within enough)
  rw [loop_repeated _ _ rest (fun n earlier => burst.throttled n (Nat.lt_of_lt_of_le earlier within)) followed,
    Nat.zero_add]
  by_cases last : retried most throttles < throttles
  · obtain ⟨rest, rfl⟩ := Nat.exists_eq_succ_of_ne_zero (show rest ≠ 0 by omega)
    have throttled : StepResult.Throttled (inner (Run.reached inner (retried most throttles) state)).outcome :=
      burst.throttled _ last
    rw [if_pos last, loop_exhausted _ throttled (next_of_any (any_of_retried_lt last))]
    rfl
  · have all : retried most throttles = throttles := Nat.le_antisymm within (Nat.not_lt.mp last)
    rw [if_neg last, loop_of_not_throttled]
    · rw [all]
      rfl
    · intro code description throttled
      rw [all] at throttled
      exact burst.settled ⟨code, description, throttled⟩

end Retry

namespace Stage

/-- A stage and the steps inside it after the stage was called with some requests, one after another. -/
def afterCalls (stage : Stage) (patience : σ → Nat) (inner : Record → σ → Run σ StepResult)
    (requests : List Record) (state : σ) : Stage × σ :=
  requests.foldl (fun left request => (left.1.around patience inner request left.2).state) (stage, state)

private theorem afterCalls_backoff (retry : Retry) (patience : σ → Nat) (inner : Record → σ → Run σ StepResult)
    (requests : List Record) (state : σ) :
    ∃ left, (Stage.backoff retry).afterCalls patience inner requests state = (.backoff retry, left) := by
  induction requests generalizing state with
  | nil => exact ⟨state, rfl⟩
  | cons request requests ih => exact ih _

end Stage

private theorem Exchange.reached_recorded (inner : Record → σ → Run σ StepResult) (request : Record) (count : Nat)
    (state : σ) (log : List Exchange) :
    Run.reached (recorded inner request) count (state, log) =
      (Run.reached (inner request) count state,
        log ++ (List.range count).map fun n => ⟨request, (Run.nth (inner request) n state).outcome⟩) := by
  induction count generalizing state log with
  | zero => rw [List.range_zero, List.map_nil, List.append_nil]; rfl
  | succ count ih =>
    rw [List.range_succ_eq_map, List.map_cons, List.map_map, List.append_cons]
    exact ih (inner request state).state _

private theorem Exchange.nth_recorded (inner : Record → σ → Run σ StepResult) (request : Record) (count : Nat)
    (state : σ) :
    Run.nth (recorded inner request) count (state, []) =
      (Run.nth (inner request) count state).mapState fun left =>
        (left, (List.range (count + 1)).map fun n => ⟨request, (Run.nth (inner request) n state).outcome⟩) := by
  rw [Run.nth, reached_recorded, List.nil_append, List.range_succ, List.map_append]
  rfl

namespace Stage

/-- **A back-off stage retries what is throttled.** Whatever a stage with an unlimited or limited number of
retries was called with before, when of its next calls exactly so many are throttled, it calls once more than
that, or once more than it may retry. It asks for the same request each time, and gives what the last call
gives, or the fault that the retries are used up. After each call but the last one it waits for the delay of
that attempt, if this is positive. The stage itself is left as it was. The patience bounds how many throttled
calls the steps inside can still give. -/
theorem retries_while_throttled (policy : Policy) (most : Option Nat) (operation : Text)
    (inner : Record → σ → Run σ StepResult) (patience : σ → Nat) {earlier : List Record} {start state : σ}
    {stage : Stage}
    (left : (Stage.backoff (.atMost policy most operation)).afterCalls patience inner earlier start =
      (stage, state))
    {request : Record} {throttles : Nat} (burst : Burst (inner request) throttles state)
    (enough : throttles ≤ patience state) (delays : policy.Delays (Retry.retried most throttles)) :
    Retry.make policy (.ofInt? (most.map Int.ofNat)) operation = .ok (.atMost policy most operation) ∧
    let retried := Retry.retried most throttles
    let call := fun n => Run.nth (inner request) n state
    let run := stage.recorded patience inner request (state, [])
    let asked := (List.range (retried + 1)).map fun n => ⟨request, (call n).outcome⟩
    run.outcome = (if retried < throttles then .error (.retriesExhausted operation (retried + 1))
      else (call throttles).outcome) ∧
    run.events = (List.range retried).flatMap (fun n => (call n).events ++ policy.pause (n + 1)) ++
      (call retried).events ∧
    (List.range' 1 retried).flatMap policy.pause =
      ((policy.delays retried).filter Number.isPositive).map .slept ∧
    run.state = (stage, (call retried).state, [⟨stage, asked, run.outcome, stage⟩]) := by
  obtain ⟨_, unchanged⟩ := afterCalls_backoff (.atMost policy most operation) patience inner earlier start
  rw [unchanged] at left
  obtain ⟨rfl, rfl⟩ := Prod.mk.inj left
  have recorded : Burst (Exchange.recorded inner request) throttles (_, []) :=
    { throttled := fun n earlier => by
        rw [Exchange.nth_recorded]
        exact burst.throttled n earlier
      settled := by
        rw [Exchange.nth_recorded]
        exact burst.settled }
  have looped := Retry.loop_of_burst operation recorded enough delays
  simp only [Exchange.nth_recorded, Retry.pausing, Nat.zero_add] at looped
  refine ⟨Retry.make_eq_atMost, ?_, ?_, policy.pauses_eq _, ?_⟩
  · rw [Stage.recorded, around, looped]
    rfl
  · rw [Stage.recorded, around, looped]
    rfl
  · rw [Stage.recorded, around, looped]
    rfl

/-- Two retries, with two seconds before the first and nothing before the second. After a request that was
throttled once, another one is throttled three times: it is asked for three times, the stage waits once, and
the answer after that is left. -/
theorem retries_while_throttled_past_two_retries :
    let throttled : Except Fault Page := .error (.throttled [] [])
    let page : Except Fault Page := .ok ⟨[.int 1], 1, 1, .null, .null, false⟩
    let stage : Stage := .backoff (.atMost (.listed [.int 2, .int 0]) (some 2) "scan")
    let inner := listService.send
    let later := stage.afterCalls List.length inner [[]] [throttled, page, throttled, throttled, throttled, page]
    let request : Record := [(.text "TableName", .text "t")]
    let run := later.1.around List.length inner request later.2
    later = (stage, [throttled, throttled, throttled, page]) ∧
      Burst (inner request) 3 later.2 ∧
      run.outcome = .error (.retriesExhausted "scan" 3) ∧
      run.events.filterMap Event.request? = [request, request, request] ∧
      run.events.filterMap Event.seconds? = [.int 2] ∧
      run.state = (stage, [page]) := by
  intro throttled page stage inner later request run
  have burst : Burst (inner request) 3 later.2 :=
    { throttled := by
        intro n within
        obtain rfl | rfl | rfl : n = 0 ∨ n = 1 ∨ n = 2 := by omega
        all_goals exact ⟨[], [], rfl⟩
      settled := by
        rintro ⟨code, description, outcome⟩
        cases outcome }
  have delays : Policy.Delays (.listed [.int 2, .int 0]) (Retry.retried (some 2) 3) := by
    intro attempt first last
    obtain rfl | rfl : attempt = 1 ∨ attempt = 2 := by
      have last : attempt ≤ 2 := last
      omega
    all_goals exact ⟨_, rfl⟩
  obtain ⟨-, outcome, events, -, state⟩ :=
    retries_while_throttled _ _ _ inner List.length (show _ = (later.1, later.2) from rfl) burst (Nat.le_succ 3) delays
  exact ⟨rfl, burst, outcome, congrArg _ events, congrArg _ events,
    congrArg (Prod.map id Prod.fst) state⟩

end Stage

end

end TableQuery
