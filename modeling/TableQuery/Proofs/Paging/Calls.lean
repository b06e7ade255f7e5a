/- Calls that a script answers.

   A back-off stage around a script calls until a call is not throttled, or until no more calls are to be
   made. It reads as much of the script as it makes calls, and does not wait after the last one. What comes of
   the last call is what its answer stands for; the stage itself refuses nothing. -/

import TableQuery.Proofs.Paging.Throttling
import TableQuery.Proofs.Pipeline.Passing
import TableQuery.Proofs.Value.Fitting

set_option autoImplicit false
set_option relaxedAutoImplicit false

namespace TableQuery

/-- A fault that is no refusal. -/
def Fault.Unrefused (fault : Fault) : Prop := ¬ fault.IsRefusal

section

open Fault (Unrefused)

private theorem Number.below_unrefused (a b : Number) : FailsOnly Unrefused (a.below b) := by
  unfold below
  cases a.less b with
  | ok less => exact .ok less
  | error condition => exact .error nofun

private theorem Value.toNumber_unrefused (v : Value) : FailsOnly Unrefused v.toNumber := by
  unfold toNumber
  split
  · exact .ok _
  · exact .error nofun

private theorem Growth.ofAttempt_unrefused (attempt : Number) : FailsOnly Unrefused (Growth.ofAttempt attempt) := by
  have doubling : ∀ times, FailsOnly Unrefused (Growth.doubling times) := by
    intro times
    unfold Growth.doubling
    split
    · exact .error nofun
    · exact .ok _
  unfold ofAttempt
  split
  · exact doubling _
  · exact doubling _
  · unfold ofExponent
    split
    · dsimp only
      split
      · exact doubling _
      · split
        · exact .error nofun
        · exact .ok _
    · exact .ok _
  · split
    · exact .error nofun
    · exact .error nofun

private theorem Number.toBinary64_unrefused (x : Number) : FailsOnly Unrefused x.toBinary64 := by
  unfold toBinary64
  split
  · exact .ok _
  · split
    · exact .error nofun
    · exact .ok _
  · exact .ok _
  · exact .error nofun

private theorem Policy.delay_unrefused (policy : Policy) (attempt : Value) :
    FailsOnly Unrefused (policy.delay attempt) := by
  cases policy with
  | constant seconds => exact .ok seconds
  | exponential base greatest ceiling =>
    have counted : ∀ attempt, FailsOnly Unrefused (counted ceiling attempt) := by
      intro attempt
      refine (Number.below_unrefused _ _).bind fun _ _ => ?_
      cases ceiling with
      | none => exact .ok _
      | some last =>
        refine (Number.below_unrefused _ _).bind fun _ _ => ?_
        split <;> exact .ok _
    refine attempt.toNumber_unrefused.bind fun _ _ => (counted _).bind fun _ _ => ?_
    refine (Growth.ofAttempt_unrefused _).bind fun _ _ => base.toBinary64_unrefused.bind fun _ _ => ?_
    refine (Number.below_unrefused _ _).bind fun _ _ => ?_
    split <;> exact .ok _
  | listed delays =>
    cases attempt with
    | int n =>
      rw [delay]
      cases delays[(n - 1).toNat]? with
      | none => exact .error nofun
      | some seconds => exact .ok seconds
    | _ => exact .error nofun

theorem Retry.next_unrefused (retry : Retry) (attempts : Nat) :
    FailsOnly Unrefused (retry.next attempts) := by
  refine FailsOnly.bind ?_ fun _ _ => ?_
  · unfold isExhausted
    split
    · exact Number.below_unrefused _ _
    · exact .ok _
  · split
    · exact .error nofun
    · exact retry.policy.delay_unrefused _

private theorem Value.toInteger_unrefused (v : Value) : FailsOnly Unrefused v.toInteger := by
  have read : ∀ (quotation : Text) (outcome : Except IntegerFault Int),
      FailsOnly Unrefused (integerRead quotation outcome) := by
    intro quotation outcome
    unfold integerRead
    split
    · exact .ok _
    · exact .error nofun
    · exact .error nofun
  unfold toInteger
  split <;> first | exact .ok _ | exact .error nofun | exact read _ _

theorem Page.ofResponse_unrefused (response : Record) : FailsOnly Unrefused (Page.ofResponse response) := by
  have count : ∀ given default, FailsOnly Unrefused (countOr given default) := by
    intro given default
    unfold countOr
    split
    · exact .ok _
    · exact given.toInteger_unrefused
  have items : FailsOnly Unrefused (itemsOf (response.get "Items")) := by
    unfold itemsOf Value.elements
    split
    · split
      · exact .ok _
      · exact .error nofun
    · exact .ok _
  refine items.bind fun _ _ => ?_
  exact (count _ _).bind fun _ _ => (count _ _).bind fun _ _ => .ok _

theorem ClientError.toFault_unrefused (error : ClientError) : error.toFault.Unrefused := by
  unfold toFault
  dsimp only
  split
  · nofun
  · split
    · nofun
    · split <;> nofun

end

open Delayed (Throttles)

namespace Script

/-- What a script answers to a call, where the first call has the number zero. A used-up script answers with
a fault. -/
def answerAt (script : List (Except Fault Record)) (i : Nat) : Except Fault Record :=
  script[i]?.getD (.error (.unmet .scriptExhausted))

def responses (script : List (Except Fault Record)) : List Record := script.filterMap Except.toOption

variable {script : List (Except Fault Record)}

theorem answerAt_drop (made i : Nat) : answerAt (script.drop made) i = answerAt script (made + i) := by
  rw [answerAt, answerAt, List.getElem?_drop]

theorem responses_take_succ (i : Nat) :
    responses (script.take (i + 1)) =
      responses (script.take i) ++ (answerAt script i).toOption.toList := by
  rw [responses, responses, answerAt, List.take_add_one, List.filterMap_append]
  cases script[i]? with
  | none => rfl
  | some answer => cases answer <;> rfl

theorem responses_take_add {made throttled : Nat}
    (before : ∀ i < throttled, Throttles (answerAt script (made + i))) :
    responses (script.take (made + throttled)) = responses (script.take made) := by
  induction throttled with
  | zero => rfl
  | succ throttled ih =>
    have last := before throttled (Nat.lt_succ_self _)
    rw [← Nat.add_assoc, responses_take_succ, ih fun i earlier => before i (Nat.lt_succ_of_lt earlier)]
    cases answer : answerAt script (made + throttled) with
    | error fault => exact List.append_nil _
    | ok response =>
      rw [answer] at last
      exact last.elim

end Script

open Script (answerAt responses)

private theorem Client.pageOf_of_throttles {outcome : Except Fault Record} (throttles : Throttles outcome) :
    ∃ code description, pageOf outcome = .error (.throttled code description) := by
  cases outcome with
  | ok response => exact throttles.elim
  | error fault =>
    cases fault with
    | client error =>
      obtain ⟨code, description, same⟩ := ClientError.toFault_of_throttling throttles
      exact ⟨code, description, congrArg Except.error same⟩
    | throttled code description => exact ⟨code, description, rfl⟩
    | _ => exact throttles.elim

theorem Client.pageOf_eq_ok {outcome : Except Fault Record} {page : Page}
    (brought : pageOf outcome = .ok page) :
    ∃ response, outcome = .ok response ∧ Page.ofResponse response = .ok page := by
  cases outcome with
  | ok response => exact ⟨response, rfl, brought⟩
  | error fault => cases fault <;> cases brought

private theorem Client.send_ofScript (operation : Operation) (request : Record)
    (script : List (Except Fault Record)) :
    (Client.ofScript.service operation).send request script =
      { outcome := (pageOf (answerAt script 0)).map .more, events := [.sent request]
        state := script.drop 1 } := by
  cases script <;> rfl

namespace Retry

/-- How repeated calls end: with the answer to a call that is not throttled, or with the fault that no more
calls follow. -/
inductive Ends (retry : Retry) (last : Except Fault Record) (attempts : Nat) :
    Except Fault StepResult → Prop
  | settled (unthrottled : ¬ Throttles last) : Ends retry last attempts ((Client.pageOf last).map .more)
  | exhausted {fault : Fault} (throttled : Throttles last) (exhausted : retry.next attempts = .error fault) :
    Ends retry last attempts (.error fault)

/-- Repeated calls on a script, where the given number is throttled before the last one. -/
structure Calls (retry : Retry) (request : Record) (script : List (Except Fault Record))
    (attempts throttled : Nat) (run : Run (List (Except Fault Record)) StepResult) : Prop where
  sent : run.events.filterMap Event.request? = List.replicate (throttled + 1) request
  last_sent : ∃ front, run.events = front ++ [.sent request]
  left : run.state = script.drop (throttled + 1)
  before : ∀ i < throttled, Throttles (answerAt script i)
  ends : retry.Ends (answerAt script throttled) (attempts + throttled + 1) run.outcome

private theorem Calls.again {retry : Retry} {request : Record} {script : List (Except Fault Record)}
    {attempts throttled : Nat} {run : Run (List (Except Fault Record)) StepResult}
    (calls : retry.Calls request (script.drop 1) (attempts + 1) throttled run)
    (throttles : Throttles (answerAt script 0)) (seconds : Number) :
    retry.Calls request script attempts (throttled + 1)
      (run.after ([.sent request] ++ waiting seconds)) := by
  obtain ⟨sent, ⟨front, last_sent⟩, left, before, ends⟩ := calls
  refine ⟨?_, ⟨[.sent request] ++ waiting seconds ++ front, ?_⟩, ?_, ?_, ?_⟩
  · rw [Run.after, List.filterMap_append, List.filterMap_append, Pipeline.filterMap_request?_waiting,
      List.append_nil, sent]
    rfl
  · rw [Run.after, last_sent, List.append_assoc _ front]
  · exact left.trans (by rw [List.drop_drop, Nat.add_comm 1])
  · intro i earlier
    cases i with
    | zero => exact throttles
    | succ i =>
      rw [Nat.add_comm, ← Script.answerAt_drop]
      exact before i (Nat.lt_of_succ_lt_succ earlier)
  · rw [Script.answerAt_drop, Nat.add_comm 1, Nat.add_right_comm attempts 1] at ends
    exact ends

/-- A back-off stage around a script calls until a call is not throttled or no more calls follow. -/
theorem loop_calls (retry : Retry) (operation : Operation) (request : Record) (fuel attempts : Nat)
    (script : List (Except Fault Record)) (enough : script.length ≤ fuel) :
    ∃ throttled, retry.Calls request script attempts throttled
      (retry.loop ((Client.ofScript.service operation).send request) fuel attempts script) := by
  have first := Client.send_ofScript operation request
  have once {script : List (Except Fault Record)} {attempts : Nat} {outcome : Except Fault StepResult}
      (ends : retry.Ends (answerAt script 0) (attempts + 1) outcome) :
      retry.Calls request script attempts 0
        { outcome, events := [.sent request], state := script.drop 1 } :=
    ⟨rfl, ⟨[], rfl⟩, rfl, nofun, ends⟩
  induction fuel generalizing attempts script with
  | zero =>
    obtain rfl : script = [] := List.length_eq_zero_iff.mp (Nat.le_zero.mp enough)
    exact ⟨0, once (.settled id)⟩
  | succ fuel ih =>
    by_cases throttles : Throttles (answerAt script 0)
    · obtain ⟨code, description, brought⟩ := Client.pageOf_of_throttles throttles
      rw [loop, first, brought]
      dsimp only [Except.map]
      cases next : retry.next (attempts + 1) with
      | error fault => exact ⟨0, once (.exhausted throttles next)⟩
      | ok seconds =>
        obtain ⟨throttled, calls⟩ := ih (attempts + 1) (script.drop 1) (by rw [List.length_drop]; omega)
        exact ⟨throttled + 1, calls.again throttles seconds⟩
    · rw [loop_of_not_throttled, first]
      · exact ⟨0, once (.settled throttles)⟩
      · intro code description throttled
        rw [first] at throttled
        refine Client.pageOf_unthrottled throttles code description ?_
        cases brought : Client.pageOf (answerAt script 0) with
        | ok page =>
          rw [brought] at throttled
          cases throttled
        | error fault =>
          rw [brought] at throttled
          exact congrArg Except.error (Except.error.inj (throttled : Except.error fault = _))

end Retry

end TableQuery
