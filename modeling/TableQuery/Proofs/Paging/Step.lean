/- One step of a reading.

   The stages of a reading keep a key to go on after and two counts. A step is what they make of a request
   at such a position and of the answer to it: the page that is yielded, whether the reading ends with it,
   and the position after it. -/

import TableQuery.Paging
import TableQuery.Proofs.Records

set_option autoImplicit false
set_option relaxedAutoImplicit false

namespace TableQuery

def Tally.plus (tally : Tally) (page : Page) : Tally :=
  ⟨tally.records + page.count, tally.scanned + page.scannedCount⟩

@[simp] theorem Tally.plus_records (tally : Tally) (page : Page) :
    (tally.plus page).records = tally.records + page.count := rfl

@[simp] theorem Tally.plus_scanned (tally : Tally) (page : Page) :
    (tally.plus page).scanned = tally.scanned + page.scannedCount := rfl

/-- What the stages of a reading keep from page to page: the key to go on after, and the counts. -/
structure Position where
  key : Value
  tally : Tally

namespace Position

def start : Position := ⟨.null, ⟨0, 0⟩⟩

def past (position : Position) (page : Page) : Position :=
  ⟨page.lastKey, position.tally.plus page⟩

end Position

namespace Caps

def full (caps : Caps) (tally : Tally) : Bool :=
  reached caps.records tally.records || reached caps.scanned tally.scanned

/-- The page without the items that exceed the cap on records. -/
def cut (caps : Caps) (tally : Tally) (page : Page) : Page :=
  match caps.records with
  | some cap =>
    if cap - tally.records < page.count then page.truncate (cap - tally.records) else page
  | none => page

/-- Whether a reading ends with a page: it reaches a cap, or it has no key to go on after. -/
def endsWith (caps : Caps) (tally : Tally) (page : Page) : Bool :=
  caps.full (tally.plus page) || !page.lastKey.isTruthy

theorem not_full_of_endsWith {caps : Caps} {tally : Tally} {page : Page}
    (h : caps.endsWith tally page = false) : caps.full (tally.plus page) = false := by
  rw [endsWith, Bool.or_eq_false_iff] at h
  exact h.1

theorem usedUp_eq_full (caps : Caps) (tally : Tally) : caps.usedUp tally = caps.full tally := by
  have nothing_left : ∀ cap used : Int, cap - used ≤ 0 ↔ cap ≤ used := by
    intro cap used
    omega
  obtain ⟨records, scanned, batch⟩ := caps
  cases records <;> cases scanned <;> simp [usedUp, remaining, full, reached, left, nothing_left]

theorem cut_lastKey (caps : Caps) (tally : Tally) (page : Page) :
    (caps.cut tally page).lastKey = page.lastKey := by
  unfold cut
  split
  · split <;> rfl
  · rfl

theorem cut_of_le {caps : Caps} {tally : Tally} {page : Page}
    (within : ∀ cap, caps.records = some cap → page.count ≤ cap - tally.records) :
    caps.cut tally page = page := by
  obtain ⟨_ | cap, scanned, batch⟩ := caps
  · rfl
  · exact if_neg (Int.not_lt.mpr (within cap rfl))

private theorem cut_of_unreached {caps : Caps} {tally : Tally} {page : Page}
    (unreached : reached caps.records (tally.records + page.count) = false) :
    caps.cut tally page = page := by
  refine cut_of_le ?_
  intro cap hcap
  have above : ¬ cap ≤ tally.records + page.count := by simpa [reached, hcap] using unreached
  omega

theorem cut_of_not_full {caps : Caps} {tally : Tally} {page : Page}
    (below : caps.full (tally.plus page) = false) : caps.cut tally page = page := by
  rw [full, Bool.or_eq_false_iff] at below
  exact cut_of_unreached below.1

theorem settle_of_full {caps : Caps} {tally : Tally} {page : Page} (result : StepResult)
    (h : caps.full (tally.plus page) = true) :
    (caps.settle tally result page).1 = .done (some (caps.cut tally page)) := by
  unfold settle
  cases hreached : reached caps.records (tally.records + page.count) with
  | true =>
    obtain ⟨_ | cap, scanned, batch⟩ := caps
    · simp [reached] at hreached
    · by_cases excess : cap - tally.records < page.count <;> simp [cut, hreached, excess]
  | false =>
    have scanned : reached caps.scanned (tally.scanned + page.scannedCount) = true := by
      simpa [full, Tally.plus, hreached] using h
    simp [scanned, cut_of_unreached hreached, hreached]

theorem settle_of_not_full {caps : Caps} {tally : Tally} {page : Page} (result : StepResult)
    (below : caps.full (tally.plus page) = false) :
    caps.settle tally result page = (result, tally.plus page) := by
  simp only [full, Tally.plus, Bool.or_eq_false_iff] at below
  unfold settle
  simp [below.1, below.2, Tally.plus]

end Caps

private theorem Stage.settle_more (caps : Caps) (key : Value) (tally : Tally) (page : Page) :
    settleKey key (settleTally caps tally (.more page)).1 =
      (if caps.endsWith tally page then .done (some (caps.cut tally page)) else .more page,
        page.lastKey) := by
  dsimp only [settleTally, StepResult.page?]
  cases full : caps.full (tally.plus page) with
  | true =>
    rw [Caps.settle_of_full _ full]
    by_cases key : page.lastKey.isTruthy <;>
      simp [settleKey, StepResult.page?, Caps.endsWith, Caps.cut_lastKey, full, key]
  | false =>
    rw [Caps.settle_of_not_full _ full]
    by_cases key : page.lastKey.isTruthy <;>
      simp [settleKey, StepResult.page?, Caps.endsWith, Caps.cut_of_not_full full, full, key]

namespace Reading

/-- The stages of a reading at a position. -/
def stagesAt (caps : Caps) (retry : Retry) (position : Position) : List Stage :=
  [.startKey position.key, .limit caps position.tally, .backoff retry]

def requestAt (caps : Caps) (position : Position) (request : Record) : Record :=
  caps.limited position.tally (Stage.started position.key request)

end Reading

namespace Retry

theorem loop_mapState {σ τ : Type} (retry : Retry) (inner : σ → Run σ StepResult)
    (view : σ → τ) (outer : τ → Run τ StepResult)
    (h : ∀ state, outer (view state) = (inner state).mapState view) (fuel attempts : Nat) (state : σ) :
    retry.loop outer fuel attempts (view state) =
      (retry.loop inner fuel attempts state).mapState view := by
  induction fuel generalizing attempts state with
  | zero => exact h state
  | succ fuel ih =>
    rw [loop, loop, h]
    simp only [Run.mapState]
    split
    · split
      · rfl
      · rw [ih]
        rfl
    · rfl

theorem loop_of_not_throttled {σ : Type} (retry : Retry) (inner : σ → Run σ StepResult)
    (fuel attempts : Nat) (state : σ)
    (h : ∀ code description, (inner state).outcome ≠ .error (.throttled code description)) :
    retry.loop inner fuel attempts state = inner state := by
  cases fuel with
  | zero => rfl
  | succ fuel =>
    rw [loop]
    split
    · rename_i code description throttled
      exact absurd throttled (h code description)
    · rfl

end Retry

namespace Pipeline

open Reading

variable {σ : Type} (service : Service σ) (caps : Caps) (retry : Retry) (position : Position)
  (request : Record) (state : σ)

/-- Below the caps the stages send one request, as often as it is throttled; then the limit stage and the
start-key stage settle its result. -/
theorem run_stagesAt (below : caps.full position.tally = false) :
    run service (stagesAt caps retry position) request state =
      let call := retry.loop (service.send (requestAt caps position request))
        (service.patience state) 0 state
      match call.outcome with
      | .error fault =>
        { outcome := .error fault, events := call.events,
          state := (stagesAt caps retry position, call.state) }
      | .ok result =>
        let limited := Stage.settleTally caps position.tally result
        let keyed := Stage.settleKey position.key limited.1
        { outcome := .ok keyed.1, events := call.events,
          state := (stagesAt caps retry ⟨keyed.2, limited.2⟩, call.state) } := by
  simp only [run, stagesAt, List.length_cons, List.length_nil, Nat.zero_add, Nat.reduceAdd, runDepth,
    Stage.around, Caps.usedUp_eq_full, below]
  rw [Retry.loop_mapState retry (service.send (requestAt caps position request))
    (fun state => (([] : List Stage), state)) _ (fun _ => rfl)]
  generalize retry.loop (service.send (requestAt caps position request)) (service.patience state) 0
    state = call
  cases outcome : call.outcome <;> simp [Stage.settled, Run.mapState, outcome]

end Pipeline

namespace Reading

variable {σ : Type} {reading : Reading} {client : Client σ} {caps : Caps} {retry : Retry}
  {position : Position} {request : Record} {state next : σ}

def callsAt (reading : Reading) (client : Client σ) (caps : Caps) (retry : Retry)
    (position : Position) (request : Record) (state : σ) : Run σ StepResult :=
  let service := client.service reading.operation
  retry.loop (service.send (requestAt caps position request)) (service.patience state) 0 state

theorem advance_of_calls_page {page : Page} (below : caps.full position.tally = false)
    (called : (reading.callsAt client caps retry position request state).outcome =
      .ok (.more page)) :
    reading.advance client request (stagesAt caps retry position) state =
      { outcome := .ok (some (caps.cut position.tally page)),
        events := (reading.callsAt client caps retry position request state).events,
        progress := if caps.endsWith position.tally page then .ended
          else .running request (stagesAt caps retry (position.past page)),
        state := (reading.callsAt client caps retry position request state).state } := by
  unfold callsAt at called ⊢
  unfold advance
  rw [Pipeline.run_stagesAt _ caps retry position request state below]
  simp only [called, Stage.settle_more]
  cases ends : caps.endsWith position.tally page with
  | true => simp
  | false =>
    have unreached := Caps.not_full_of_endsWith ends
    simp [Stage.settleTally, StepResult.page?, Caps.settle_of_not_full _ unreached,
      Caps.cut_of_not_full unreached, Position.past]

theorem advance_of_calls_fault {fault : Fault} (below : caps.full position.tally = false)
    (called : (reading.callsAt client caps retry position request state).outcome = .error fault) :
    reading.advance client request (stagesAt caps retry position) state =
      { outcome := .error fault,
        events := (reading.callsAt client caps retry position request state).events,
        progress := .ended,
        state := (reading.callsAt client caps retry position request state).state } := by
  unfold callsAt at called ⊢
  unfold advance
  rw [Pipeline.run_stagesAt _ caps retry position request state below]
  simp only [called]

variable (retry)

theorem callsAt_of_answer {outcome : Except Fault Page}
    (answered : (client.service reading.operation).answer (requestAt caps position request) state =
      (outcome, next))
    (h : ∀ code description, outcome ≠ .error (.throttled code description)) :
    reading.callsAt client caps retry position request state =
      { outcome := outcome.map .more, events := [.sent (requestAt caps position request)],
        state := next } := by
  unfold callsAt
  rw [Retry.loop_of_not_throttled]
  · simp [Service.send, answered]
  · intro code description throttled
    simp only [Service.send, answered] at throttled
    cases outcome with
    | ok page => simp [Except.map] at throttled
    | error fault => exact h code description (congrArg Except.error (by simpa [Except.map] using throttled))

theorem advance_of_page {page : Page} (below : caps.full position.tally = false)
    (answered : (client.service reading.operation).answer (requestAt caps position request) state =
      (.ok page, next)) :
    reading.advance client request (stagesAt caps retry position) state =
      { outcome := .ok (some (caps.cut position.tally page)),
        events := [.sent (requestAt caps position request)],
        progress := if caps.endsWith position.tally page then .ended
          else .running request (stagesAt caps retry (position.past page)),
        state := next } := by
  have calls := callsAt_of_answer retry answered (by simp)
  rw [advance_of_calls_page below (by rw [calls]; rfl), calls]

theorem advance_of_fault {fault : Fault} (below : caps.full position.tally = false)
    (answered : (client.service reading.operation).answer (requestAt caps position request) state =
      (.error fault, next))
    (h : ∀ code description, fault ≠ .throttled code description) :
    reading.advance client request (stagesAt caps retry position) state =
      { outcome := .error fault, events := [.sent (requestAt caps position request)],
        progress := .ended, state := next } := by
  have calls := callsAt_of_answer retry answered (by simpa using h)
  rw [advance_of_calls_fault below (by rw [calls]; rfl), calls]

end Reading

end TableQuery
