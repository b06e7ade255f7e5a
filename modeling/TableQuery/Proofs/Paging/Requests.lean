/- The requests of a reading.

   The first page is asked for with the request that is built from the options. Each further page is asked
   for with the same request, but for the key that the page before it ended with and for the limit that the
   pages so far leave. All calls for one page carry one request. -/

import TableQuery.Proofs.Paging.PageSequence

set_option autoImplicit false
set_option relaxedAutoImplicit false

namespace TableQuery

/-- The limit of the page after the earlier ones: the least of what they leave of the caps on records and
on evaluated records and of the cap on one page, as far as these are set. -/
def Caps.nextLimit (caps : Caps) (earlier : List Page) : Option Int :=
  Limits.pageSize
    [caps.records.map (· - (earlier.map Page.count).sum),
      caps.scanned.map (· - (earlier.map Page.scannedCount).sum), caps.batch]

/-- A request with another key to start after and another limit, if there is one. -/
def Request.continued (request : Record) (key : Value) (limit : Option Int) : Record :=
  match limit with
  | some n => (request.put "ExclusiveStartKey" key).put "Limit" (.int n)
  | none => request.put "ExclusiveStartKey" key

private theorem Request.get?_continued (request : Record) (key : Value) (limit : Option Int) {name : Text}
    (key_ne : name ≠ "ExclusiveStartKey") (limit_ne : name ≠ "Limit") :
    (continued request key limit).get? name = request.get? name := by
  cases limit with
  | none => exact Record.get?_put_of_ne _ _ key_ne.symm
  | some n =>
    rw [continued, Record.get?_put_of_ne _ _ limit_ne.symm, Record.get?_put_of_ne _ _ key_ne.symm]

private theorem Page.lastKey_eq {response : Record} {page : Page} (h : ofResponse response = .ok page)
    (keyed : page.lastKey.isTruthy = true) : page.lastKey = response.get "LastEvaluatedKey" := by
  obtain ⟨items, -, h⟩ := bind_eq_ok.mp h
  obtain ⟨count, -, h⟩ := bind_eq_ok.mp h
  obtain ⟨scannedCount, -, h⟩ := bind_eq_ok.mp h
  obtain rfl := pure_eq_ok.mp h
  dsimp only at keyed ⊢
  split at keyed
  · rw [if_pos ‹_›]
  · cases keyed

namespace Position

/-- The position after some pages. -/
def pastAll (position : Position) (pages : List Page) : Position := pages.foldl past position

private theorem pastAll_tally (position : Position) (pages : List Page) :
    (position.pastAll pages).tally = position.tally.total pages := by
  induction pages generalizing position with
  | nil => rfl
  | cons page pages ih => exact ih (position.past page)

private theorem pastAll_key (position : Position) {pages : List Page} {last : Page}
    (h : pages.getLast? = some last) : (position.pastAll pages).key = last.lastKey := by
  obtain ⟨earlier, rfl⟩ := List.getLast?_eq_some_iff.mp h
  rw [pastAll, List.foldl_append]
  rfl

end Position

namespace Caps

private theorem nextLimit_nil (caps : Caps) :
    caps.nextLimit [] = Limits.pageSize [caps.records, caps.scanned, caps.batch] := by
  simp [nextLimit]

private theorem one_le_nextLimit {caps : Caps} (positive : caps.Positive) {pages : List Page}
    (below : caps.full (Position.start.tally.total pages) = false) {n : Int}
    (h : caps.nextLimit pages = some n) : 1 ≤ n := by
  have least := List.min?_mem h
  simp only [full, Bool.or_eq_false_iff, Tally.total_eq, Position.start, Int.zero_add] at below
  simp only [List.mem_filterMap, List.mem_cons, List.not_mem_nil, or_false, id] at least
  obtain ⟨cap, rfl | rfl | rfl, hcap⟩ := least
  · obtain ⟨most, hmost, rfl⟩ := Option.map_eq_some_iff.mp hcap
    have unreached := below.1
    simp only [reached, hmost, Option.any_some, decide_eq_false_iff_not] at unreached
    omega
  · obtain ⟨most, hmost, rfl⟩ := Option.map_eq_some_iff.mp hcap
    have unreached := below.2
    simp only [reached, hmost, Option.any_some, decide_eq_false_iff_not] at unreached
    omega
  · exact positive.batch n hcap

private theorem pageLimit?_eq_nextLimit {caps : Caps} (positive : caps.Positive) {pages : List Page}
    (below : caps.full (Position.start.tally.total pages) = false) :
    caps.pageLimit? (Position.start.tally.total pages) = caps.nextLimit pages := by
  have least : caps.pageLimit? (Position.start.tally.total pages) =
      (caps.nextLimit pages).map (max 1 ·) := by
    have listed : caps.remaining (Position.start.tally.total pages) ++ caps.batch.toList =
        [caps.records.map (· - (pages.map Page.count).sum),
          caps.scanned.map (· - (pages.map Page.scannedCount).sum), caps.batch].filterMap id := by
      rw [Tally.total_eq]
      obtain ⟨records, scanned, batch⟩ := caps
      cases records <;> cases scanned <;> cases batch <;> simp [remaining, left, Position.start]
    rw [pageLimit?, listed]
    rfl
  rw [least]
  cases limit : caps.nextLimit pages with
  | none => rfl
  | some n =>
    rw [Option.map_some, Int.max_eq_right (one_le_nextLimit positive below limit)]

end Caps

namespace Retry

private theorem loop_requests {σ : Type} (retry : Retry) (service : Service σ) (request : Record)
    (fuel attempts : Nat) (state : σ) :
    ∃ repeats, (retry.loop (service.send request) fuel attempts state).events.filterMap Event.request? =
      List.replicate (repeats + 1) request := by
  have once : ∀ state, (service.send request state).events.filterMap Event.request? = [request] :=
    fun _ => rfl
  induction fuel generalizing attempts state with
  | zero => exact ⟨0, once state⟩
  | succ fuel ih =>
    rw [loop]
    split
    · split
      · exact ⟨0, once state⟩
      · rename_i seconds _
        obtain ⟨repeats, later⟩ := ih (attempts + 1) (service.send request state).state
        have unsent : (waiting seconds).filterMap Event.request? = [] := by
          unfold waiting
          split <;> rfl
        refine ⟨repeats + 1, ?_⟩
        simp only [Run.after, List.filterMap_append, once, unsent, List.append_nil, later]
        rfl
    · exact ⟨0, once state⟩

private theorem loop_ofScript (retry : Retry) (operation : Operation) (request : Record) (fuel attempts : Nat)
    (script : List (Except Fault Record)) {page : Page}
    (h : (retry.loop ((Client.ofScript.service operation).send request) fuel attempts script).outcome =
      .ok (.more page)) :
    ∃ front response, script = front ++ .ok response ::
        (retry.loop ((Client.ofScript.service operation).send request) fuel attempts script).state ∧
      Page.ofResponse response = .ok page := by
  have answered : ∀ script,
      ((Client.ofScript.service operation).send request script).outcome = .ok (.more page) →
        ∃ front response, script =
          front ++ .ok response :: ((Client.ofScript.service operation).send request script).state ∧
            Page.ofResponse response = .ok page := by
    intro script h
    obtain ⟨answer, hanswer, hpage⟩ := map_eq_ok.mp h
    obtain rfl : answer = page := StepResult.more.inj hpage
    cases script with
    | nil => cases hanswer
    | cons outcome rest =>
      cases outcome with
      | ok response => exact ⟨[], response, rfl, hanswer⟩
      | error fault => cases fault <;> cases hanswer
  induction fuel generalizing attempts script with
  | zero => exact answered script h
  | succ fuel ih =>
    rw [loop] at h ⊢
    split at h
    · rename_i throttled
      split at h
      · cases h
      · obtain ⟨front, response, split, hpage⟩ := ih _ _ h
        cases script with
        | nil => cases throttled
        | cons outcome rest => exact ⟨outcome :: front, response, congrArg (outcome :: ·) split, hpage⟩
    · exact answered script h

end Retry

namespace Reading

private theorem requestAt_start [DepthLimits] {reading : Reading} {request : Record}
    (built : reading.request = .ok request)
    (positive : reading.caps.Positive) :
    request.get? "Limit" = (reading.caps.nextLimit []).map .int ∧
      requestAt reading.caps .start request = request := by
  obtain ⟨-, draft, -, -, h⟩ := request_eq_ok built
  obtain ⟨size, hsize, limit⟩ := Request.get?_limit h
  obtain ⟨records, hrecords, hsize⟩ := bind_eq_ok.mp hsize
  obtain ⟨scanned, hscanned, hsize⟩ := bind_eq_ok.mp hsize
  obtain ⟨batch, hbatch, hsize⟩ := bind_eq_ok.mp hsize
  have same : size = reading.caps.nextLimit [] := by
    rw [Caps.nextLimit_nil, Reading.caps, Caps.ofOptions, ← (Limits.records_eq_ok hrecords).1,
      ← (Limits.positive?_eq_ok hscanned).1, ← (Limits.positive?_eq_ok hbatch).1]
    exact (pure_eq_ok.mp hsize).symm
  rw [same] at limit
  refine ⟨limit, ?_⟩
  have uncounted : reading.caps.full (Position.start.tally.total []) = false := positive.not_full
  have here := Caps.pageLimit?_eq_nextLimit positive uncounted
  change reading.caps.pageLimit? Position.start.tally = _ at here
  have unkeyed : Stage.started Position.start.key request = request := rfl
  rw [requestAt, unkeyed, Caps.limited, here]
  cases first : reading.caps.nextLimit [] with
  | none => rfl
  | some n =>
    rw [first] at limit
    exact Record.put_of_get?_eq_some limit

private theorem requestAt_past {caps : Caps} (positive : caps.Positive) (request : Record) {pages : List Page}
    {last : Page} (isLast : pages.getLast? = some last) (keyed : last.lastKey.isTruthy = true)
    (below : caps.full (Position.start.tally.total pages) = false) :
    requestAt caps (Position.start.pastAll pages) request =
      Request.continued request last.lastKey (caps.nextLimit pages) := by
  rw [requestAt, Position.pastAll_tally, Position.pastAll_key _ isLast, Stage.started, if_pos keyed,
    Caps.limited, Caps.pageLimit?_eq_nextLimit positive below]
  cases caps.nextLimit pages <;> rfl

private theorem advance_events {σ : Type} (reading : Reading) (client : Client σ) (request : Record)
    (retry : Retry) (position : Position) (state : σ) (below : reading.caps.full position.tally = false) :
    (reading.advance client request (stagesAt reading.caps retry position) state).events =
      (reading.callsAt client reading.caps retry position request state).events := by
  cases called : (reading.callsAt client reading.caps retry position request state).outcome with
  | error fault => rw [advance_of_calls_fault below called]
  | ok result =>
    obtain ⟨page, rfl⟩ := Retry.loop_eq_more retry _ _ _ _ _ called
    rw [advance_of_calls_page below called]

private theorem advance_requests {σ : Type} (reading : Reading) (client : Client σ) (request : Record)
    (retry : Retry) (position : Position) (state : σ) (below : reading.caps.full position.tally = false) :
    ∃ repeats, (reading.advance client request (stagesAt reading.caps retry position)
        state).events.filterMap Event.request? =
      List.replicate (repeats + 1) (requestAt reading.caps position request) := by
  rw [advance_events reading client request retry position state below]
  exact Retry.loop_requests retry _ _ _ 0 state

/-- After as many pages as it was asked for, a reading that has not ended stands past them, and has read
the script up to the answer that the last of them came from. -/
private theorem stands_after [DepthLimits] (reading : Reading) (request : Record) (retry : Retry) (n : Nat)
    {position : Position} (script : List (Except Fault Record)) (below : reading.caps.full position.tally = false) :
    let drain := drainWithin (reading.pullPage .ofScript) n
      (.running request (stagesAt reading.caps retry position)) script
    drain.progress = .ended ∨
      drain.taken.length = n ∧
      drain.progress =
        .running request (stagesAt reading.caps retry (position.pastAll drain.taken)) ∧
      reading.caps.full (position.tally.total drain.taken) = false ∧
      ∀ last, drain.taken.getLast? = some last → last.lastKey.isTruthy = true ∧
        ∃ front response, script = front ++ .ok response :: drain.state ∧
          Page.ofResponse response = .ok last := by
  induction n generalizing position script with
  | zero => exact .inr ⟨rfl, rfl, below, nofun⟩
  | succ n ih =>
    cases called : (reading.callsAt .ofScript reading.caps retry position request script).outcome with
    | error fault =>
      rw [drainWithin_of_error n (advance_of_calls_fault below called)]
      exact .inl rfl
    | ok result =>
      obtain ⟨page, rfl⟩ := Retry.loop_eq_more retry _ _ _ _ _ called
      obtain ⟨front, first, split, hpage⟩ := Retry.loop_ofScript retry _ _ _ _ _ called
      rw [drainWithin_of_some n (advance_of_calls_page below called)]
      cases ends : reading.caps.endsWith position.tally page with
      | true =>
        left
        simp [drainWithin_ended]
      | false =>
        rw [Caps.endsWith, Bool.or_eq_false_iff] at ends
        have unreached : reading.caps.full (position.past page).tally = false := ends.1
        have keyed : page.lastKey.isTruthy = true := by simpa using ends.2
        rw [Caps.cut_of_not_full ends.1, if_neg Bool.false_ne_true]
        refine (ih _ unreached).imp_right ?_
        rintro ⟨length, progress, below, answered⟩
        refine ⟨congrArg (· + 1) length, progress, below, ?_⟩
        intro last isLast
        cases n with
        | zero =>
          obtain rfl : page = last := Option.some.inj isLast
          exact ⟨keyed, front, first, split, hpage⟩
        | succ n =>
          rw [List.getLast?_cons_of_ne_nil (List.ne_nil_of_length_eq_add_one length)] at isLast
          obtain ⟨keyed, between, response, resplit, hpage⟩ := answered last isLast
          refine ⟨keyed, front ++ .ok first :: between, response, split.trans ?_, hpage⟩
          rw [List.append_assoc]
          exact congrArg (front ++ .ok first :: ·) resplit

/-- A request asks for the page after those that were taken from a script. The first page is asked for with
the request of the options, and a later one with the last key of the answer before it and with the limit that
the pages so far leave; nothing else in the request changes. -/
structure AsksAfter (reading : Reading) (request : Record) (script : List (Except Fault Record))
    (before : Drain (List (Except Fault Record)) Progress Page) (sent : Record) : Prop where
  first : before.taken = [] → sent = request
  later : ∀ last, before.taken.getLast? = some last → ∃ front response,
    script = front ++ .ok response :: before.state ∧ Page.ofResponse response = .ok last ∧
      sent = Request.continued request (response.get "LastEvaluatedKey")
        (reading.caps.nextLimit before.taken)
  limit : ∀ n, reading.caps.nextLimit before.taken = some n → 1 ≤ n
  others : ∀ name : Text, name ≠ "ExclusiveStartKey" → name ≠ "Limit" → sent.get? name = request.get? name

section Asking

variable {reading : Reading} (positive : reading.caps.Positive) {request : Record}
  {script : List (Except Fault Record)} {before : Drain (List (Except Fault Record)) Progress Page}

include positive

private theorem asksAfter_nothing (none_taken : before.taken = []) :
    reading.AsksAfter request script before request where
  first := fun _ => rfl
  later := by
    intro last isLast
    rw [none_taken] at isLast
    cases isLast
  limit := by
    intro n hn
    have uncounted : reading.caps.full (Position.start.tally.total []) = false := positive.not_full
    rw [none_taken] at hn
    exact Caps.one_le_nextLimit positive uncounted hn
  others := fun _ _ _ => rfl

/-- The request at the position past some pages asks for the page after them. -/
private theorem asksAfter_pages {last : Page} (isLast : before.taken.getLast? = some last)
    (keyed : last.lastKey.isTruthy = true)
    (below : reading.caps.full (Position.start.tally.total before.taken) = false)
    {front : List (Except Fault Record)} {response : Record}
    (split : script = front ++ .ok response :: before.state)
    (hpage : Page.ofResponse response = .ok last) :
    reading.AsksAfter request script before
      (requestAt reading.caps (Position.start.pastAll before.taken) request) := by
  rw [requestAt_past positive request isLast keyed below, Page.lastKey_eq hpage keyed]
  refine
    { first := ?_
      later := ?_
      limit := fun n hn => Caps.one_le_nextLimit positive below hn
      others := fun name key_ne limit_ne => Request.get?_continued _ _ _ key_ne limit_ne }
  · intro none_taken
    rw [none_taken] at isLast
    cases isLast
  · intro page isPage
    obtain rfl : last = page := Option.some.inj (isLast.symm.trans isPage)
    exact ⟨front, response, split, hpage, rfl⟩

end Asking

/-- After any number of pages a reading has ended and sends nothing more, or all its calls for the next page
carry one request, the one that asks for the page after those. -/
theorem requests_sent [DepthLimits] (reading : Reading) (valid : reading.Valid) (script : List (Except Fault Record)) :
    ∃ request, reading.request = .ok request ∧
      request.get? "Limit" = (reading.caps.nextLimit []).map .int ∧
      ∀ n, let before := drainWithin (reading.pullPage .ofScript) n .fresh script
        let next := reading.pullPage .ofScript before.progress before.state
        before.progress = .ended ∧ next.events = [] ∨
        before.taken.length = n ∧ ∃ repeats sent,
          next.events.filterMap Event.request? = List.replicate (repeats + 1) sent ∧
          reading.AsksAfter request script before sent := by
  obtain ⟨request, retry, built, -, opens⟩ := reading.opens .ofScript valid
  obtain ⟨positive, -⟩ := valid.stages_eq
  obtain ⟨limit, first⟩ := requestAt_start built positive
  refine ⟨request, built, limit, ?_⟩
  intro n before next
  cases n with
  | zero =>
    obtain ⟨repeats, sent⟩ :=
      reading.advance_requests .ofScript request retry .start script positive.not_full
    rw [first] at sent
    refine .inr ⟨rfl, repeats, request, ?_, asksAfter_nothing positive rfl⟩
    rw [← sent]
    exact congrArg (fun pull => pull.events.filterMap Event.request?) (opens script)
  | succ n =>
    have opened : before = drainWithin (reading.pullPage .ofScript) (n + 1)
        (.running request (stagesAt reading.caps retry .start)) script :=
      drainWithin_of_pull_eq n (opens script)
    rcases reading.stands_after request retry (n + 1) script positive.not_full with
      ended | ⟨length, progress, below, answered⟩
    · rw [← opened] at ended
      refine .inl ⟨ended, ?_⟩
      unfold next
      rw [ended]
      rfl
    · rw [← opened] at length progress below answered
      obtain ⟨last, isLast⟩ := List.getLast?_isSome.mpr (List.ne_nil_of_length_eq_add_one length) |>
        Option.isSome_iff_exists.mp
      obtain ⟨keyed, front, response, split, hpage⟩ := answered last isLast
      obtain ⟨repeats, sent⟩ := reading.advance_requests .ofScript request retry
        (Position.start.pastAll before.taken) before.state (by rw [Position.pastAll_tally]; exact below)
      have calls : next = reading.advance .ofScript request
          (stagesAt reading.caps retry (Position.start.pastAll before.taken)) before.state := by
        unfold next
        rw [progress]
        rfl
      rw [← calls] at sent
      exact .inr ⟨length, repeats, _, sent, asksAfter_pages positive isLast keyed below split hpage⟩

def throttledCall : Except Fault Record := .error (.client (ClientError.throttling "Scan"))

/-- After a page of two of three records, the call for the next one is throttled and repeated: both times one
record is asked for, after the last key. -/
theorem requests_sent_repeated :
    let script := [throttledCall, .ok (answerOfTwo "a" "b"), throttledCall, .ok (answerOfTwo "c" "d")]
    let before := drainWithin (scanForThree.pullPage .ofScript) 1 .fresh script
    let next := scanForThree.pullPage .ofScript before.progress before.state
    let sent : Record := [(.text "TableName", .text "events"), (.text "Limit", .int 1),
      (.text "ExclusiveStartKey", .map [(.text "id", .text "b")])]
    scanForThree.Valid ∧ before.taken.length = 1 ∧
      next.events.filterMap Event.request? = [sent, sent] := by
  intro script before next sent
  have valid : scanForThree.Valid := ⟨⟨_, rfl⟩, ⟨_, rfl⟩⟩
  obtain ⟨request, built, -, pages⟩ := requests_sent scanForThree valid script
  obtain rfl : _ = request := Except.ok.inj built
  rcases pages 1 with ⟨ended, -⟩ | ⟨taken, repeats, asked, requests, asks⟩
  · cases ended
  · obtain ⟨front, response, split, -, same⟩ := asks.later _ rfl
    have cut : [throttledCall] ++ (.ok (answerOfTwo "a" "b") :: before.state) =
        front ++ (.ok response :: before.state) := split
    obtain rfl : answerOfTwo "a" "b" = response :=
      Except.ok.inj (List.cons.inj (List.append_inj' cut rfl).2).1
    have calls : (next.events.filterMap Event.request?).length = 2 := by decide +kernel
    have repeated : repeats = 1 := by
      rw [requests, List.length_replicate] at calls
      exact Nat.succ.inj calls
    refine ⟨valid, taken, ?_⟩
    rw [repeated, same] at requests
    exact requests

end Reading

end TableQuery
