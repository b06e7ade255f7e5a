/- Runs of a scripted client.

   Expectations are queued and calls are made, in any order. Each call is logged, and as long as expectations wait,
   each call meets the next of them: the first call to find one meets the first that was ever queued, the second
   the second. What a call is answered with, or which fault it ends with, makes no difference to this. -/

import Mathlib.Data.List.Induction
import TableQuery.Client.Scripted
import TableQuery.Proofs.Client.Matching

set_option autoImplicit false
set_option relaxedAutoImplicit false

namespace TableQuery

/-- A request passes a check: any request does when nothing is checked, and otherwise one that satisfies the shape
or keeps the rule. -/
def Check.PassedBy (request : Record) : Check → Prop
  | .anything => True
  | .shape expected => ∃ entries, expected.toRecord = .ok entries ∧ (Value.map entries).SatisfiedBy (.map request)
  | .rule _ judge => judge request = .ok ()

/-- A call is as expected: it has the method, its request passes the check, and it has none of the absent keys. -/
structure Expectation.MetBy (expectation : Expectation) (method : Text) (request : Record) : Prop where
  method : expectation.method = method
  check : expectation.check.PassedBy request
  absent : ∀ key ∈ expectation.absent, request.get? key = none

def Expectation.Responds (expectation : Expectation) (response : Record) : Prop :=
  expectation.fault = none ∧
    if expectation.response.isTruthy then expectation.response.toRecord = .ok response else response = []

private theorem Check.passedBy_of_run {check : Check} {method : Text} {request : Record}
    (kept : check.run method request = .ok ()) : check.PassedBy request := by
  cases check with
  | anything => trivial
  | rule name judge => exact kept
  | shape expected =>
    rw [run, bind_eq_ok] at kept
    obtain ⟨entries, read, kept⟩ := kept
    rw [bind_eq_ok] at kept
    obtain ⟨found, matched, kept⟩ := kept
    cases found with
    | some difference => cases kept
    | none =>
      cases Difference.reports_of_find? _ matched with
      | satisfied satisfied => exact ⟨entries, read, satisfied⟩

private theorem Expectation.metBy_of_verify {expectation : Expectation} {method : Text} {request : Record}
    (kept : expectation.verify method request = .ok ()) : expectation.MetBy method request := by
  rw [verify] at kept
  by_cases same : expectation.method = method
  · have unthrown : ¬ expectation.method ≠ method := not_not_intro same
    rw [if_neg unthrown] at kept
    change (expectation.check.run method request >>= fun _ => _) = _ at kept
    rw [bind_eq_ok] at kept
    obtain ⟨_, checked, kept⟩ := kept
    refine ⟨same, Check.passedBy_of_run checked, ?_⟩
    cases found : expectation.absent.find? fun key => (request.get? key).isSome with
    | some key =>
      rw [found] at kept
      cases kept
    | none =>
      intro key listed
      have absent := List.find?_eq_none.mp found key listed
      simpa using absent
  · rw [if_pos same] at kept
    cases kept

private theorem Expectation.responds_of_answer {expectation : Expectation} {response : Record}
    (answered : expectation.answer = .ok response) : expectation.Responds response := by
  rw [answer] at answered
  cases fault : expectation.fault with
  | some fault' =>
    rw [fault] at answered
    cases answered
  | none =>
    rw [fault] at answered
    refine ⟨fault, ?_⟩
    by_cases given : expectation.response.isTruthy = true
    · simpa only [given, if_true] using answered
    · simp only [given] at answered ⊢
      exact (Except.ok.inj answered).symm

namespace ScriptedClient

/-- What is done with a scripted client: one more call is expected, or a call is made. -/
inductive Action where
  | expect (expectation : Expectation)
  | call (operation : Operation) (request : Record)

namespace Action

def queued? : Action → Option Expectation
  | .expect expectation => some expectation
  | .call .. => none

def logged? : Action → Option (Text × Record)
  | .expect _ => none
  | .call operation request => some (operation.name, request)

end Action

/-- The client after an action, whatever a call is answered with. -/
def past (client : ScriptedClient) : Action → ScriptedClient
  | .expect expectation => client.expect expectation
  | .call operation request => (client.call operation.name request).2

def after (actions : List Action) : ScriptedClient := actions.foldl past idle

/-- How many expectations wait for a call, and how many have been met. -/
structure Standing where
  waiting : ℕ
  met : ℕ

namespace Standing

/-- An expectation that is queued waits, and a call meets one of those that wait, if there are any. -/
def past (standing : Standing) : Action → Standing
  | .expect _ => ⟨standing.waiting + 1, standing.met⟩
  | .call .. => if standing.waiting = 0 then standing else ⟨standing.waiting - 1, standing.met + 1⟩

def after (actions : List Action) : Standing := actions.foldl past ⟨0, 0⟩

end Standing

def queued (actions : List Action) : List Expectation := actions.filterMap Action.queued?

/-- A run keeps its log and its queue: the requests of all calls in order, and the expectations behind those that
have been met. -/
structure Keeps (client : ScriptedClient) (standing : Standing) (actions : List Action) : Prop where
  calls : client.calls = actions.filterMap Action.logged?
  pending : client.pending = (queued actions).drop standing.met
  counted : standing.waiting + standing.met = (queued actions).length

private theorem queued_append (actions : List Action) (action : Action) :
    queued (actions ++ [action]) = queued actions ++ action.queued?.toList := by
  simp only [queued, List.filterMap_append, List.filterMap_cons, List.filterMap_nil]
  cases action.queued? <;> rfl

private theorem after_append (actions : List Action) (action : Action) :
    after (actions ++ [action]) = (after actions).past action := by
  rw [after, List.foldl_append]
  rfl

private theorem Standing.after_append (actions : List Action) (action : Action) :
    Standing.after (actions ++ [action]) = (Standing.after actions).past action := by
  rw [after, List.foldl_append]
  rfl

namespace Keeps

variable {client : ScriptedClient} {standing : Standing} {actions : List Action}

private theorem length_pending (keeps : Keeps client standing actions) : client.pending.length = standing.waiting := by
  rw [keeps.pending, List.length_drop]
  have counted := keeps.counted
  omega

private theorem expect (keeps : Keeps client standing actions) (expectation : Expectation) :
    Keeps (client.past (.expect expectation)) (standing.past (.expect expectation))
      (actions ++ [.expect expectation]) where
  calls := by
    rw [List.filterMap_append, ← keeps.calls]
    exact (List.append_nil _).symm
  pending := by
    have within : standing.met ≤ (queued actions).length := by
      have counted := keeps.counted
      omega
    rw [queued_append, Standing.past, List.drop_append_of_le_length within, ← keeps.pending]
    rfl
  counted := by
    rw [queued_append, List.length_append, ← keeps.counted, Standing.past]
    simp only [Action.queued?, Option.toList_some, List.length_singleton]
    omega

private theorem call_none (keeps : Keeps client standing actions) (operation : Operation) (request : Record)
    (nothing : (queued actions)[standing.met]? = none) :
    (client.call operation.name request).1 = .error (.unmet (.unexpectedCall operation.name)) ∧
      (client.past (.call operation request)).pending = client.pending ∧
      standing.past (.call operation request) = standing := by
  have empty : client.pending = [] := by
    rw [keeps.pending, List.drop_eq_nil_iff]
    exact List.getElem?_eq_none_iff.mp nothing
  have idle : standing.waiting = 0 := by
    rw [← keeps.length_pending, empty]
    rfl
  refine ⟨?_, ?_, ?_⟩
  · rw [call, empty]
  · rw [past, call, empty]
  · rw [Standing.past, if_pos idle]

private theorem call_some (keeps : Keeps client standing actions) (operation : Operation) (request : Record)
    {expectation : Expectation} (next : (queued actions)[standing.met]? = some expectation) :
    (client.call operation.name request).1 =
        (expectation.verify operation.name request >>= fun _ => expectation.answer) ∧
      (client.past (.call operation request)).pending = client.pending.tail ∧
      standing.past (.call operation request) = ⟨standing.waiting - 1, standing.met + 1⟩ := by
  have first : client.pending = expectation :: (queued actions).drop (standing.met + 1) := by
    obtain ⟨within, here⟩ := List.getElem?_eq_some_iff.mp next
    rw [keeps.pending, List.drop_eq_getElem_cons within, here]
  have waiting : standing.waiting ≠ 0 := by
    rw [← keeps.length_pending, first]
    exact Nat.succ_ne_zero _
  refine ⟨?_, ?_, ?_⟩
  · rw [call, first]
  · rw [past, call, first]
    rfl
  · rw [Standing.past, if_neg waiting]

private theorem call (keeps : Keeps client standing actions) (operation : Operation) (request : Record) :
    Keeps (client.past (.call operation request)) (standing.past (.call operation request))
      (actions ++ [.call operation request]) := by
  have logged : (client.past (.call operation request)).calls =
      (actions ++ [Action.call operation request]).filterMap Action.logged? := by
    rw [List.filterMap_append, ← keeps.calls, past, ScriptedClient.call]
    cases client.pending <;> rfl
  have unqueued : queued (actions ++ [.call operation request]) = queued actions := by
    rw [queued_append]
    exact List.append_nil _
  cases next : (queued actions)[standing.met]? with
  | none =>
    obtain ⟨-, pending, same⟩ := keeps.call_none operation request next
    exact ⟨logged, by rw [pending, same, unqueued, keeps.pending], by rw [same, unqueued, keeps.counted]⟩
  | some expectation =>
    obtain ⟨-, pending, onward⟩ := keeps.call_some operation request next
    obtain ⟨within, -⟩ := List.getElem?_eq_some_iff.mp next
    refine ⟨logged, by rw [pending, onward, unqueued, keeps.pending, List.tail_drop], ?_⟩
    have counted := keeps.counted
    rw [onward, unqueued]
    dsimp only
    omega

end Keeps

/-- Every run keeps its log and its queue. -/
private theorem keeps_after (actions : List Action) : Keeps (after actions) (Standing.after actions) actions := by
  induction actions using List.reverseRecOn with
  | nil => exact ⟨rfl, rfl, rfl⟩
  | append_singleton actions action ih =>
    rw [after_append, Standing.after_append]
    cases action with
    | expect expectation => exact ih.expect expectation
    | call operation request => exact ih.call operation request

/-- **Calls meet expectations in order.** However expectations are queued and calls are made, the log holds the
requests of all calls in order, the queue holds the expectations behind those that have been met, and a call meets
one exactly when one waits. The next call meets the first expectation that has not been met yet, and that
expectation alone decides about its outcome; a call that meets none is unexpected and leaves the queue as it is. A
call is answered only if it is as expected, with the response of an expectation that holds no fault. -/
theorem calls_meet_in_order (actions : List Action) :
    let client := after actions
    let standing := Standing.after actions
    client.calls = actions.filterMap Action.logged? ∧
    client.pending = (queued actions).drop standing.met ∧
    client.pending.length = standing.waiting ∧
    standing.waiting + standing.met = (queued actions).length ∧
    (client.finish = .ok () ↔ standing.met = (queued actions).length) ∧
    ∀ operation request,
      let outcome := (client.call operation.name request).1
      let next := Standing.after (actions ++ [.call operation request])
      (∀ expectation, (queued actions)[standing.met]? = some expectation →
        outcome = (expectation.verify operation.name request >>= fun _ => expectation.answer) ∧
          next.met = standing.met + 1) ∧
      ((queued actions)[standing.met]? = none →
        outcome = .error (.unmet (.unexpectedCall operation.name)) ∧ next.met = standing.met ∧
          (after (actions ++ [.call operation request])).pending = client.pending) ∧
      ∀ response, outcome = .ok response → ∃ expectation, (queued actions)[standing.met]? = some expectation ∧
        expectation.MetBy operation.name request ∧ expectation.Responds response := by
  intro client standing
  have keeps := keeps_after actions
  have counted : standing.waiting + standing.met = (queued actions).length := keeps.counted
  have length : client.pending.length = standing.waiting := keeps.length_pending
  refine ⟨keeps.calls, keeps.pending, length, counted, ?_, ?_⟩
  · have finished : client.finish = .ok () ↔ client.pending = [] := by
      rw [finish, ← List.isEmpty_iff]
      cases client.pending.isEmpty with
      | true => exact iff_of_true rfl rfl
      | false =>
        refine iff_of_false ?_ Bool.false_ne_true
        intro given
        obtain ⟨_, -, pending⟩ := bind_eq_ok.mp given
        cases pending
    rw [finished, ← List.length_eq_zero_iff, length]
    omega
  · intro operation request outcome next
    have step : next = standing.past (.call operation request) := Standing.after_append actions _
    refine ⟨?_, ?_, ?_⟩
    · intro expectation found
      obtain ⟨decided, -, onward⟩ := keeps.call_some operation request found
      exact ⟨decided, by rw [step, onward]⟩
    · intro nothing
      obtain ⟨unexpected, pending, same⟩ := keeps.call_none operation request nothing
      exact ⟨unexpected, by rw [step, same], by rw [after_append, pending]⟩
    · intro response answered
      cases found : (queued actions)[standing.met]? with
      | none =>
        obtain ⟨unexpected, -⟩ := keeps.call_none operation request found
        cases answered.symm.trans unexpected
      | some expectation =>
        obtain ⟨decided, -⟩ := keeps.call_some operation request found
        obtain ⟨_, verified, answered⟩ := bind_eq_ok.mp (decided.symm.trans answered)
        exact ⟨expectation, rfl, Expectation.metBy_of_verify verified, Expectation.responds_of_answer answered⟩

end ScriptedClient

end TableQuery
