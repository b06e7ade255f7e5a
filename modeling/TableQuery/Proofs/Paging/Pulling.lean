/- Pulling pages one by one.

   A reading calls its client only when it is asked for a page, and then only as often as it takes to settle
   that page. So the calls that were made are those of the pages that were asked for, an error ends the
   reading after the pages of the responses before it, and what is refused is refused before any call. -/

import TableQuery.Proofs.Paging.Calls

set_option autoImplicit false
set_option relaxedAutoImplicit false

namespace TableQuery

open Delayed (Throttles)
open Script (answerAt responses)

namespace Reading

/-- How a pull ends with the last of its calls, the one of the given number: with the page of a response,
after which the reading goes on; with the last page, which may be cut; or with a fault, that of the call or
the one that no more calls follow throttling. -/
inductive Settles (reading : Reading) (last : Except Fault Record) (attempts : Nat) :
    Except Fault (Option Page) → Progress → Prop
  | more {response : Record} {page : Page} {request : Record} {stages : List Stage}
    (answered : last = .ok response) (read : Page.ofResponse response = .ok page) :
    Settles reading last attempts (.ok (some page)) (.running request stages)
  | last {response : Record} {page : Page} (tally : Tally) (answered : last = .ok response)
    (read : Page.ofResponse response = .ok page) :
    Settles reading last attempts (.ok (some (reading.caps.cut tally page))) .ended
  | fault {fault : Fault} (unthrottled : ¬ Throttles last) (brought : Client.pageOf last = .error fault) :
    Settles reading last attempts (.error fault) .ended
  | exhausted {retry : Retry} {fault : Fault} (throttled : Throttles last)
    (made : Retry.make reading.policy reading.maxRetries reading.operation.name = .ok retry)
    (exhausted : retry.next attempts = .error fault) :
    Settles reading last attempts (.error fault) .ended

private theorem Settles.of_page {reading : Reading} {last : Except Fault Record} {attempts : Nat}
    {outcome : Except Fault (Option Page)} {progress : Progress}
    (settles : reading.Settles last attempts outcome progress) {page : Page}
    (yields : outcome = .ok (some page)) :
    ∃ response given, last = .ok response ∧ Page.ofResponse response = .ok given ∧
      (progress ≠ .ended → outcome = .ok (some given)) := by
  cases settles with
  | more answered read => exact ⟨_, _, answered, read, fun _ => rfl⟩
  | last tally answered read => exact ⟨_, _, answered, read, fun running => absurd rfl running⟩
  | fault => cases yields
  | exhausted => cases yields

private theorem Settles.of_running {reading : Reading} {last : Except Fault Record} {attempts : Nat}
    {outcome : Except Fault (Option Page)} {progress : Progress}
    (settles : reading.Settles last attempts outcome progress) (running : progress ≠ .ended) :
    ∃ page, outcome = .ok (some page) := by
  cases settles with
  | more => exact ⟨_, rfl⟩
  | _ => exact absurd rfl running

private theorem Settles.of_clientError {reading : Reading} {error : ClientError} {attempts : Nat}
    {outcome : Except Fault (Option Page)} {progress : Progress}
    (settles : reading.Settles (.error (.client error)) attempts outcome progress)
    (other : error.isThrottling = false) : outcome = .error error.toFault ∧ progress = .ended := by
  have throttling : Throttles (.error (.client error)) → False := by
    intro throttles
    cases other.symm.trans throttles
  cases settles with
  | more answered => cases answered
  | last _ answered => cases answered
  | fault _ brought =>
    obtain rfl := Except.error.inj brought
    exact ⟨rfl, rfl⟩
  | exhausted throttles => exact (throttling throttles).elim

private theorem Settles.of_refused {reading : Reading} {last : Except Fault Record} {attempts : Nat}
    {outcome : Except Fault (Option Page)} {progress : Progress}
    (settles : reading.Settles last attempts outcome progress) {why : Refusal}
    (refused : outcome = .error (.refused why)) : last = .error (.refused why) := by
  cases settles with
  | more => cases refused
  | last => cases refused
  | exhausted _ _ exhausted =>
    obtain rfl := Except.error.inj refused
    exact absurd ⟨why, rfl⟩ (Retry.next_unrefused _ _ _ exhausted)
  | fault _ brought =>
    obtain rfl := Except.error.inj refused
    cases last with
    | ok response => exact absurd ⟨why, rfl⟩ (Page.ofResponse_unrefused response _ brought)
    | error fault =>
      cases fault with
      | client error => exact absurd ⟨why, Except.error.inj brought⟩ error.toFault_unrefused
      | _ => exact congrArg Except.error (Except.error.inj (brought : Except.error _ = _))

/-- Where a reading stands between two pulls. -/
inductive Stands (reading : Reading) : Progress → Prop
  | fresh : Stands reading .fresh
  | running {request : Record} {retry : Retry} {position : Position}
    (made : Retry.make reading.policy reading.maxRetries reading.operation.name = .ok retry)
    (below : reading.caps.full position.tally = false) :
    Stands reading (.running request (stagesAt reading.caps retry position))
  | ended : Stands reading .ended

/-- What a pull does with a script: a reading that cannot be opened and one that has ended make no calls, and
any other calls until the page is settled. -/
inductive Pulls (reading : Reading) (script : List (Except Fault Record)) (progress : Progress)
    (pull : Pull (List (Except Fault Record)) Progress Page) : Prop
  | rests (unsent : pull.events = []) (left : pull.state = script) (ended : pull.progress = .ended)
    (without : progress = .ended ∧ pull.outcome = .ok none ∨
      progress = .fresh ∧ ∃ fault, pull.outcome = .error fault)
  | calls {request : Record} {throttled : Nat}
    (sent : pull.events.filterMap Event.request? = List.replicate (throttled + 1) request)
    (last_sent : ∃ front, pull.events = front ++ [.sent request])
    (left : pull.state = script.drop (throttled + 1))
    (before : ∀ i < throttled, Throttles (answerAt script i))
    (settles : reading.Settles (answerAt script throttled) (throttled + 1) pull.outcome pull.progress)

variable {reading : Reading}

/-- Below its caps a reading calls until the page is settled; then it stands below its caps again, or has
ended. -/
private theorem advance_pulls {retry : Retry}
    (made : Retry.make reading.policy reading.maxRetries reading.operation.name = .ok retry)
    (progress : Progress) (request : Record) (position : Position) (script : List (Except Fault Record))
    (below : reading.caps.full position.tally = false) :
    let pull := reading.advance .ofScript request (stagesAt reading.caps retry position) script
    reading.Pulls script progress pull ∧ reading.Stands pull.progress ∧ pull.progress ≠ .fresh := by
  obtain ⟨throttled, sent, last_sent, left, before, ends⟩ := retry.loop_calls reading.operation
    (requestAt reading.caps position request) script.length 0 script (Nat.le_refl _)
  change retry.Ends _ _ (reading.callsAt .ofScript reading.caps retry position request script).outcome at ends
  rw [Nat.zero_add] at ends
  generalize called : (reading.callsAt .ofScript reading.caps retry position request script).outcome =
    outcome at ends
  dsimp only
  cases ends with
  | settled unthrottled =>
    cases brought : Client.pageOf (answerAt script throttled) with
    | error fault =>
      rw [brought] at called
      rw [advance_of_calls_fault below called]
      exact ⟨.calls sent last_sent left before (.fault unthrottled brought), .ended, by simp⟩
    | ok page =>
      obtain ⟨response, answered, read⟩ := Client.pageOf_eq_ok brought
      rw [brought] at called
      rw [advance_of_calls_page below called]
      cases ends : reading.caps.endsWith position.tally page with
      | true =>
        exact ⟨.calls sent last_sent left before (.last position.tally answered read), .ended, by simp⟩
      | false =>
        have unreached := Caps.not_full_of_endsWith ends
        rw [Caps.cut_of_not_full unreached]
        exact ⟨.calls sent last_sent left before (.more answered read), .running made unreached, by simp⟩
  | exhausted throttles exhausted =>
    rw [advance_of_calls_fault below called]
    exact ⟨.calls sent last_sent left before (.exhausted throttles made exhausted), .ended, by simp⟩

/-- What a pull does, wherever a reading stands. -/
private theorem pullPage_pulls [DepthLimits] (script : List (Except Fault Record)) {progress : Progress}
    (stands : reading.Stands progress) :
    let pull := reading.pullPage .ofScript progress script
    reading.Pulls script progress pull ∧ reading.Stands pull.progress ∧ pull.progress ≠ .fresh := by
  cases stands with
  | fresh =>
    dsimp only [pullPage]
    cases built : reading.request with
    | error fault => exact ⟨.rests rfl rfl rfl (.inr ⟨rfl, fault, rfl⟩), .ended, nofun⟩
    | ok request =>
      cases staged : reading.stages with
      | error fault => exact ⟨.rests rfl rfl rfl (.inr ⟨rfl, fault, rfl⟩), .ended, nofun⟩
      | ok stages =>
        obtain ⟨positive, retry, made, rfl⟩ := stages_eq_ok staged
        exact advance_pulls made .fresh request .start script positive.not_full
  | running made below => exact advance_pulls made _ _ _ script below
  | ended => exact ⟨.rests rfl rfl rfl (.inl ⟨rfl, rfl⟩), .ended, nofun⟩

private theorem after_succ [DepthLimits] {σ : Type} (reading : Reading) (client : Client σ) (n : Nat)
    (progress : Progress)
    (state : σ) :
    reading.after client (n + 1) progress state =
      let reached := reading.after client n progress state
      let pull := reading.pullPage client reached.1 reached.2
      (pull.progress, pull.state) := by
  induction n generalizing progress state with
  | zero => rfl
  | succ n ih => exact ih _ _

private theorem Pulls.state_eq {script : List (Except Fault Record)} {progress : Progress}
    {pull : Pull (List (Except Fault Record)) Progress Page} (pulls : reading.Pulls script progress pull) :
    pull.state = script.drop (pull.events.filterMap Event.request?).length := by
  cases pulls with
  | rests unsent left => rw [left, unsent, List.filterMap_nil, List.length_nil, List.drop_zero]
  | calls sent _ left => rw [left, sent, List.length_replicate]

private theorem Pulls.length_state_lt {script : List (Except Fault Record)} {progress : Progress}
    {pull : Pull (List (Except Fault Record)) Progress Page} (pulls : reading.Pulls script progress pull)
    {page : Page} (yields : pull.outcome = .ok (some page)) : pull.state.length < script.length := by
  cases pulls with
  | rests _ _ _ without =>
    rw [yields] at without
    rcases without with ⟨-, none⟩ | ⟨-, fault, failed⟩
    · cases none
    · cases failed
  | @calls _ throttled _ _ left _ settles =>
    obtain ⟨response, -, answered, -⟩ := settles.of_page yields
    have present : throttled < script.length := by
      by_contra past
      rw [answerAt, List.getElem?_eq_none (Nat.not_lt.mp past)] at answered
      cases answered
    rw [left, List.length_drop]
    omega

private theorem pullItemWithin_isSome [DepthLimits] {fuel : Nat} {script : List (Except Fault Record)}
    (enough : script.length < fuel) (ready : List Value) {progress : Progress} (stands : reading.Stands progress) :
    (reading.pullItemWithin .ofScript fuel ready progress script).isSome = true := by
  induction fuel generalizing script ready progress with
  | zero => cases enough
  | succ fuel ih =>
    cases ready with
    | cons item rest => rfl
    | nil =>
      obtain ⟨pulls, stands', -⟩ := pullPage_pulls script stands
      rw [pullItemWithin]
      split
      · rfl
      · rfl
      next page yields =>
        have shorter := pulls.length_state_lt yields
        rw [Option.isSome_map]
        exact ih (by omega) page.items stands'

theorem pullItem?_isSome [DepthLimits] (script : List (Except Fault Record)) (ready : List Value)
    {progress : Progress} (stands : reading.Stands progress) :
    (reading.pullItem? .ofScript ready progress script).isSome = true :=
  pullItemWithin_isSome (Nat.lt_add_of_pos_right (by decide)) ready stands

section

variable [DepthLimits] (reading) (script : List (Except Fault Record))

/-- How far a reading from a script has come after a number of pulls. -/
def progressAt (n : Nat) : Progress := (reading.after .ofScript n .fresh script).1

/-- The pull that follows a number of pulls of a reading from a script. -/
def nthPull (n : Nat) : Pull (List (Except Fault Record)) Progress Page :=
  reading.pullPage .ofScript (reading.progressAt script n) (reading.after .ofScript n .fresh script).2

/-- The number of calls that the first pulls of a reading from a script make. -/
def callsMade : Nat → Nat
  | 0 => 0
  | n + 1 => callsMade n + ((reading.nthPull script n).events.filterMap Event.request?).length

private theorem progressAt_succ (n : Nat) :
    reading.progressAt script (n + 1) = (reading.nthPull script n).progress := by
  rw [progressAt, after_succ]
  rfl

private theorem after_pulls (n : Nat) :
    (reading.after .ofScript n .fresh script).2 = script.drop (reading.callsMade script n) ∧
      reading.Stands (reading.progressAt script n) ∧ (reading.progressAt script n = .fresh → n = 0) := by
  induction n with
  | zero => exact ⟨rfl, .fresh, fun _ => rfl⟩
  | succ n ih =>
    obtain ⟨read, stands, -⟩ := ih
    obtain ⟨pulls, stands', opened⟩ := pullPage_pulls (reading.after .ofScript n .fresh script).2 stands
    rw [progressAt_succ]
    refine ⟨?_, stands', fun fresh => absurd fresh opened⟩
    rw [after_succ, callsMade, ← List.drop_drop, ← read]
    exact pulls.state_eq

private theorem nthPull_pulls (n : Nat) :
    reading.Pulls (script.drop (reading.callsMade script n)) (reading.progressAt script n)
      (reading.nthPull script n) := by
  obtain ⟨read, stands, -⟩ := reading.after_pulls script n
  rw [← read]
  exact (pullPage_pulls _ stands).1

variable {reading script}

private theorem rests_of_ended {n : Nat} (ended : reading.progressAt script n = .ended) {m : Nat} (later : n ≤ m) :
    reading.progressAt script m = .ended ∧ reading.callsMade script m = reading.callsMade script n ∧
      (reading.nthPull script m).outcome = .ok none ∧ (reading.nthPull script m).events = [] := by
  have rests : ∀ {k}, reading.progressAt script k = .ended → reading.nthPull script k =
      { outcome := .ok none, events := [], progress := .ended
        state := (reading.after .ofScript k .fresh script).2 } := by
    intro k ended
    rw [nthPull, ended]
    rfl
  induction m, later using Nat.le_induction with
  | base => exact ⟨ended, rfl, by rw [rests ended], by rw [rests ended]⟩
  | succ m _ ih =>
    obtain ⟨standing, made, -⟩ := ih
    have next : reading.progressAt script (m + 1) = .ended := by rw [progressAt_succ, rests standing]
    refine ⟨next, ?_, by rw [rests next], by rw [rests next]⟩
    rw [callsMade, rests standing, made]
    rfl

private theorem progressAt_ne_ended {n : Nat} (running : reading.progressAt script n ≠ .ended) {i : Nat}
    (earlier : i ≤ n) :
    reading.progressAt script i ≠ .ended :=
  fun ended => running (rests_of_ended ended earlier).1

private theorem callsMade_succ {n throttled : Nat} {request : Record}
    (sent : (reading.nthPull script n).events.filterMap Event.request? =
      List.replicate (throttled + 1) request) :
    reading.callsMade script (n + 1) = reading.callsMade script n + throttled + 1 := by
  rw [callsMade, sent, List.length_replicate, Nat.add_assoc]

/-- Pulls that yield pages yield those of the responses that were consumed, one page for each; only the last
page may be cut. -/
private theorem pages_of_responses {n : Nat}
    (yielded : ∀ i < n, ∃ page, (reading.nthPull script i).outcome = .ok (some page)) :
    List.Forall₂
      (fun i response => ∃ page, Page.ofResponse response = .ok page ∧
        (reading.progressAt script (i + 1) ≠ .ended →
          (reading.nthPull script i).outcome = .ok (some page)))
      (List.range n) (responses (script.take (reading.callsMade script n))) := by
  induction n with
  | zero => exact .nil
  | succ n ih =>
    obtain ⟨page, yields⟩ := yielded n (Nat.lt_succ_self n)
    have earlier := ih fun i before => yielded i (Nat.lt_succ_of_lt before)
    rw [List.range_succ]
    cases reading.nthPull_pulls script n with
    | rests _ _ _ without =>
      rw [yields] at without
      rcases without with ⟨-, none⟩ | ⟨-, fault, failed⟩
      · cases none
      · cases failed
    | calls sent _ _ before settles =>
      simp only [Script.answerAt_drop] at before settles
      obtain ⟨response, given, answered, read, whole⟩ := settles.of_page yields
      rw [callsMade_succ sent, Script.responses_take_succ, Script.responses_take_add before, answered]
      rw [← progressAt_succ] at whole
      exact List.rel_append earlier (.cons ⟨given, read, whole⟩ .nil)

private theorem yielded_of_running {n : Nat} (running : reading.progressAt script n ≠ .ended) {i : Nat}
    (earlier : i < n) :
    ∃ page, (reading.nthPull script i).outcome = .ok (some page) := by
  have onward : (reading.nthPull script i).progress ≠ .ended := by
    rw [← progressAt_succ]
    exact progressAt_ne_ended running earlier
  cases reading.nthPull_pulls script i with
  | rests _ _ ended => exact absurd ended onward
  | calls _ _ _ _ settles => exact settles.of_running onward

private theorem exists_pull_of_call {j m : Nat} (made : j < reading.callsMade script m) :
    ∃ n < m, reading.callsMade script n ≤ j ∧ j < reading.callsMade script (n + 1) := by
  induction m with
  | zero => exact absurd made (Nat.not_lt_zero j)
  | succ m ih =>
    by_cases earlier : j < reading.callsMade script m
    · obtain ⟨n, before, within⟩ := ih earlier
      exact ⟨n, Nat.lt_succ_of_lt before, within⟩
    · exact ⟨m, Nat.lt_succ_self m, Nat.le_of_not_lt earlier, made⟩

private theorem unsent_of_unbuilt {fault : Fault} (failed : reading.request = .error fault) :
    (reading.nthPull script 0).outcome = .error fault ∧ ∀ n, reading.callsMade script n = 0 := by
  have first : reading.nthPull script 0 =
      { outcome := .error fault, events := [], progress := .ended, state := script } := by
    simp only [nthPull, progressAt, after, pullPage, failed]
  have unsent : reading.callsMade script 1 = 0 := by
    rw [callsMade, first]
    rfl
  have ended : reading.progressAt script 1 = .ended := by rw [progressAt_succ, first]
  refine ⟨by rw [first], ?_⟩
  intro n
  cases n with
  | zero => rfl
  | succ n => exact (rests_of_ended ended (Nat.le_add_left 1 n)).2.1.trans unsent

private theorem ended_of_no_page {n : Nat}
    (without : ∀ page, (reading.nthPull script n).outcome ≠ .ok (some page)) :
    reading.progressAt script (n + 1) = .ended := by
  by_contra running
  obtain ⟨page, yields⟩ := yielded_of_running running (Nat.lt_succ_self n)
  exact without page yields

/-- An error that is no throttling ends the reading at its call, after the pages of the responses before. -/
private theorem aborts_at_error {m j : Nat} {error : ClientError} (made : j < reading.callsMade script m)
    (answered : answerAt script j = .error (.client error)) (other : error.isThrottling = false) :
    ∃ n < m, (reading.nthPull script n).outcome = .error error.toFault ∧
      (∃ front request, (reading.nthPull script n).events = front ++ [.sent request]) ∧
      (∀ later > n, reading.callsMade script later = j + 1) ∧
      List.Forall₂
        (fun i response => ∃ page, Page.ofResponse response = .ok page ∧
          (reading.nthPull script i).outcome = .ok (some page))
        (List.range n) (responses (script.take j)) := by
  obtain ⟨n, before_m, low, high⟩ := exists_pull_of_call made
  have running : reading.progressAt script n ≠ .ended := by
    intro ended
    have same := (rests_of_ended ended (Nat.le_add_right n 1)).2.1
    omega
  cases reading.nthPull_pulls script n with
  | rests unsent =>
    rw [callsMade, unsent, List.filterMap_nil, List.length_nil] at high
    omega
  | @calls request throttled sent last_sent _ before settles =>
    obtain ⟨front, last_sent⟩ := last_sent
    simp only [Script.answerAt_drop] at before settles
    rw [callsMade_succ sent] at high
    -- The error is not one of the throttled answers, so it is the answer to the last call.
    have last : j = reading.callsMade script n + throttled := by
      by_contra earlier
      have throttles := before (j - reading.callsMade script n) (by omega)
      rw [Nat.add_sub_cancel' low, answered] at throttles
      cases other.symm.trans throttles
    subst last
    rw [answered] at settles
    obtain ⟨outcome, ended⟩ := settles.of_clientError other
    rw [← progressAt_succ] at ended
    refine ⟨n, before_m, outcome, ⟨front, request, last_sent⟩, ?_, ?_⟩
    · intro later after
      exact (rests_of_ended ended after).2.1.trans (callsMade_succ sent)
    · rw [Script.responses_take_add before]
      have pages := pages_of_responses fun i earlier => yielded_of_running running earlier
      have members : ∀ i ∈ List.range n, i < n := fun i member => List.mem_range.mp member
      refine ((List.forall₂_and_left _ _).mpr ⟨members, pages⟩).imp ?_
      rintro i response ⟨earlier, page, read, whole⟩
      exact ⟨page, read, whole (progressAt_ne_ended running earlier)⟩

private theorem refused_before_calls {n : Nat} {why : Refusal}
    (refused : (reading.nthPull script n).outcome = .error (.refused why)) :
    reading.callsMade script (n + 1) = 0 ∨
      answerAt script (reading.callsMade script (n + 1) - 1) = .error (.refused why) := by
  cases reading.nthPull_pulls script n with
  | rests unsent _ _ without =>
    rw [refused] at without
    rcases without with ⟨-, none⟩ | ⟨fresh, -⟩
    · cases none
    · obtain rfl := (reading.after_pulls script n).2.2 fresh
      refine .inl ?_
      rw [callsMade, unsent]
      rfl
  | calls sent _ _ _ settles =>
    rw [Script.answerAt_drop] at settles
    rw [callsMade_succ sent]
    exact .inr (settles.of_refused refused)

end

/-- A reading from a script is lazy, and aborts cleanly. -/
structure Lazy [DepthLimits] (reading : Reading) (script : List (Except Fault Record)) : Prop where
  /-- Pulls read as much of the script as they make calls: before the first pull nothing is sent. -/
  reads : ∀ n, (reading.after .ofScript n .fresh script).2 = script.drop (reading.callsMade script n)
  /-- Without a request the first pull gives the fault, and no call is ever made. -/
  unopened : ∀ fault, reading.request = .error fault →
    (reading.nthPull script 0).outcome = .error fault ∧ ∀ n, reading.callsMade script n = 0
  /-- A pull makes no calls, or throttled ones and the one that settles its page, after which it does not
  wait. -/
  attempts : ∀ n,
    ((reading.nthPull script n).events = [] ∧ ∀ page, (reading.nthPull script n).outcome ≠ .ok (some page)) ∨
    ∃ throttled front request,
      reading.callsMade script (n + 1) = reading.callsMade script n + throttled + 1 ∧
      (reading.nthPull script n).events = front ++ [.sent request] ∧
      (∀ i < throttled, Throttles (answerAt script (reading.callsMade script n + i))) ∧
      reading.Settles (answerAt script (reading.callsMade script n + throttled)) (throttled + 1)
        (reading.nthPull script n).outcome (reading.progressAt script (n + 1))
  /-- As many pages, as many responses. -/
  consumes : ∀ n, (∀ i < n, ∃ page, (reading.nthPull script i).outcome = .ok (some page)) →
    (responses (script.take (reading.callsMade script n))).length = n
  /-- An error of the service that is no throttling ends the reading at once, after the pages of the responses
  before it. -/
  aborts : ∀ m j error, j < reading.callsMade script m → answerAt script j = .error (.client error) →
    error.isThrottling = false →
    ∃ n < m, (reading.nthPull script n).outcome = .error error.toFault ∧
      (∃ front request, (reading.nthPull script n).events = front ++ [.sent request]) ∧
      (∀ later > n, reading.callsMade script later = j + 1) ∧
      List.Forall₂
        (fun i response => ∃ page, Page.ofResponse response = .ok page ∧
          (reading.nthPull script i).outcome = .ok (some page))
        (List.range n) (responses (script.take j))
  /-- After the end and after a fault nothing more happens. -/
  rests : ∀ n, (∀ page, (reading.nthPull script n).outcome ≠ .ok (some page)) →
    ∀ m > n, (reading.nthPull script m).outcome = .ok none ∧ (reading.nthPull script m).events = []
  /-- Nothing is refused once a call was made, unless it is the client that refuses its last call. -/
  refuses : ∀ n why, (reading.nthPull script n).outcome = .error (.refused why) →
    reading.callsMade script (n + 1) = 0 ∨
      answerAt script (reading.callsMade script (n + 1) - 1) = .error (.refused why)

/-- **Pages are pulled lazily, and errors abort cleanly.** -/
theorem pulls_lazily [DepthLimits] (reading : Reading) (script : List (Except Fault Record)) : reading.Lazy script where
  reads n := (reading.after_pulls script n).1
  unopened _ failed := unsent_of_unbuilt failed
  attempts n := by
    cases reading.nthPull_pulls script n with
    | rests unsent _ _ without =>
      refine .inl ⟨unsent, ?_⟩
      rintro page yields
      rw [yields] at without
      rcases without with ⟨-, none⟩ | ⟨-, fault, failed⟩
      · cases none
      · cases failed
    | @calls request throttled sent last_sent _ before settles =>
      obtain ⟨front, last_sent⟩ := last_sent
      simp only [Script.answerAt_drop] at before settles
      rw [← progressAt_succ] at settles
      exact .inr ⟨throttled, front, request, callsMade_succ sent, last_sent, before, settles⟩
  consumes n yielded := by
    have pages := pages_of_responses yielded
    rw [← pages.length_eq, List.length_range]
  aborts _ _ _ made answered other := aborts_at_error made answered other
  rests _ without _ later := (rests_of_ended (ended_of_no_page without) later).2.2
  refuses _ _ refused := refused_before_calls refused

/-- A throttled call and a page, then an error: the second pull gives the error after one more call, and the
third one rests although there is another page. -/
example :
    let page : Except Fault Record := .ok (answerOfTwo "a" "b")
    let missing := ClientError.ofCode "ResourceNotFoundException" "no such table" "Scan"
    let script := [.error (.client (ClientError.throttling "Scan")), page, .error (.client missing), page]
    let pull := patientScan.nthPull script
    (List.range 4).map (patientScan.callsMade script) = [0, 2, 3, 3] ∧
      (pull 1).outcome.isOk = false ∧ (pull 1).events.length = 1 ∧ (pull 2).events = [] := by
  intro page missing script pull
  exact ⟨by decide +kernel, by decide +kernel, by decide +kernel, rfl⟩

end Reading

end TableQuery
