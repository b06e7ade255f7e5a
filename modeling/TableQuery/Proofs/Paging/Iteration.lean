/- Taking pages until none is left.

   A reading is at rest before its first page and after its last one. Between them it runs, and then its
   counts have not reached a cap: asking for a page sends a request, and only a page or a fault ends it. -/

import TableQuery.Proofs.Paging.Opening

set_option autoImplicit false
set_option relaxedAutoImplicit false

namespace TableQuery

/-- A client that answers from a list of outcomes, and has no answer when the list is used up. -/
def Client.ofScript : Client (List (Except Fault Record)) where
  call := fun _ _ script =>
    match script with
    | [] => (.error (.unmet .scriptExhausted), [])
    | outcome :: rest => (outcome, rest)
  patience := List.length

theorem Retry.loop_eq_more {σ : Type} (retry : Retry) (service : Service σ) (request : Record)
    (fuel attempts : Nat) (state : σ) {result : StepResult}
    (h : (retry.loop (service.send request) fuel attempts state).outcome = .ok result) :
    ∃ page, result = .more page := by
  have sent : ∀ {state : σ}, (service.send request state).outcome = .ok result →
      ∃ page, result = .more page := by
    intro state h
    obtain ⟨page, -, hpage⟩ := map_eq_ok.mp h
    exact ⟨page, hpage.symm⟩
  induction fuel generalizing attempts state with
  | zero => exact sent h
  | succ fuel ih =>
    rw [loop] at h
    split at h
    · split at h
      · cases h
      · exact ih _ _ h
    · exact sent h

theorem drainWithin_of_pull_eq {σ π α : Type} {pull : π → σ → Pull σ π α} {progress progress' : π}
    {state : σ} (fuel : Nat) (h : pull progress state = pull progress' state) :
    drainWithin pull (fuel + 1) progress state = drainWithin pull (fuel + 1) progress' state := by
  rw [drainWithin, drainWithin, h]

namespace Reading

variable {σ : Type} (reading : Reading) (client : Client σ)

/-- How far a valid reading can have come: wherever it runs, a position below its caps was reached. -/
inductive Reached : Progress → Prop
  | fresh : Reached .fresh
  | running {request : Record} {retry : Retry} {position : Position} :
      reading.caps.full position.tally = false →
        Reached (.running request (stagesAt reading.caps retry position))
  | ended : Reached .ended

/-- Below its caps a reading yields a page or a fault, and then rests or is below its caps again. -/
private theorem advance_reached (request : Record) (retry : Retry) (position : Position) (state : σ)
    (below : reading.caps.full position.tally = false) :
    let pull := reading.advance client request (stagesAt reading.caps retry position) state
    pull.outcome ≠ .ok none ∧ reading.Reached pull.progress := by
  cases called : (reading.callsAt client reading.caps retry position request state).outcome with
  | error fault =>
    rw [advance_of_calls_fault below called]
    exact ⟨by simp, .ended⟩
  | ok result =>
    obtain ⟨page, rfl⟩ := Retry.loop_eq_more retry _ _ _ _ _ called
    rw [advance_of_calls_page below called]
    refine ⟨by simp, ?_⟩
    cases ends : reading.caps.endsWith position.tally page with
    | true => exact .ended
    | false => exact .running (Caps.not_full_of_endsWith ends)

variable [DepthLimits]

/-- Where a reading stands after a number of pulls. -/
def after : Nat → Progress → σ → Progress × σ
  | 0, progress, state => (progress, state)
  | pulls + 1, progress, state =>
    let pull := reading.pullPage client progress state
    after pulls pull.progress pull.state

theorem pullPage_reached (valid : reading.Valid) {progress : Progress} (state : σ)
    (reached : reading.Reached progress) :
    let pull := reading.pullPage client progress state
    (pull.outcome = .ok none → progress = .ended) ∧ reading.Reached pull.progress := by
  cases reached with
  | fresh =>
    obtain ⟨request, built, -⟩ := valid.request_eq
    obtain ⟨positive, retry, hstages⟩ := valid.stages_eq
    have opened := reading.advance_reached client request retry .start state positive.not_full
    dsimp only [pullPage]
    rw [built, hstages]
    exact ⟨fun none => absurd none opened.1, opened.2⟩
  | running below =>
    rename_i request retry position
    have next := reading.advance_reached client request retry position state below
    exact ⟨fun none => absurd none next.1, next.2⟩
  | ended => exact ⟨fun _ => rfl, .ended⟩

theorem after_reached (valid : reading.Valid) (pulls : Nat) {progress : Progress} (state : σ)
    (reached : reading.Reached progress) :
    reading.Reached (reading.after client pulls progress state).1 := by
  induction pulls generalizing progress state with
  | zero => exact reached
  | succ pulls ih => exact ih _ (reading.pullPage_reached client valid state reached).2

theorem drainWithin_ended (fuel : Nat) (state : σ) :
    drainWithin (reading.pullPage client) fuel .ended state =
      { taken := [], fault := none, events := [], progress := .ended, state } := by
  cases fuel <;> rfl

theorem opens (valid : reading.Valid) :
    ∃ request retry, reading.request = .ok request ∧
      Retry.make reading.policy reading.maxRetries reading.operation.name = .ok retry ∧
      ∀ state, reading.pullPage client .fresh state =
        reading.pullPage client (.running request (stagesAt reading.caps retry .start)) state := by
  obtain ⟨request, built⟩ := valid.request
  obtain ⟨stages, hstages⟩ := valid.stages
  obtain ⟨-, retry, made, rfl⟩ := stages_eq_ok hstages
  exact ⟨request, retry, built, made, fun state => by simp only [pullPage, built, hstages]⟩

theorem opened (valid : reading.Valid) :
    ∃ request retry, request.get "ExclusiveStartKey" = reading.startKey ∧
      reading.caps.full Position.start.tally = false ∧
      ∀ fuel state, drainWithin (reading.pullPage client) (fuel + 1) .fresh state =
        drainWithin (reading.pullPage client) (fuel + 1)
          (.running request (stagesAt reading.caps retry .start)) state := by
  obtain ⟨request, built, key⟩ := valid.request_eq
  obtain ⟨positive, -⟩ := valid.stages_eq
  obtain ⟨request', retry, built', -, same⟩ := reading.opens client valid
  obtain rfl : request = request' := Except.ok.inj (built.symm.trans built')
  exact ⟨request, retry, key, positive.not_full, fun fuel state => drainWithin_of_pull_eq fuel (same state)⟩

end Reading

section Drain

variable {σ π α : Type} {pull : π → σ → Pull σ π α} {progress next : π} {state rest : σ}
  {events : List Event}

theorem drainWithin_of_some {a : α} (fuel : Nat)
    (h : pull progress state = { outcome := .ok (some a), events, progress := next, state := rest }) :
    drainWithin pull (fuel + 1) progress state =
      let later := drainWithin pull fuel next rest
      { later with taken := a :: later.taken, events := events ++ later.events } := by
  rw [drainWithin, h]

theorem drainWithin_of_error {fault : Fault} (fuel : Nat)
    (h : pull progress state = { outcome := .error fault, events, progress := next, state := rest }) :
    drainWithin pull (fuel + 1) progress state =
      { taken := [], fault := some fault, events, progress := next, state := rest } := by
  rw [drainWithin, h]

end Drain

end TableQuery
