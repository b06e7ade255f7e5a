/- Resuming after a page that was cut.

   A client may answer with more records than the limit of a request. The page that goes beyond the cap on
   records is cut to its first items, and keeps its last key, which names a place behind all of them. A run
   that goes on from the cursor of such a page passes over the items that were dropped; after any other page
   it goes on with the first item that has not been yielded. -/

import TableQuery.Proofs.Paging.Calls
import TableQuery.Proofs.Paging.Resuming

set_option autoImplicit false
set_option relaxedAutoImplicit false

namespace TableQuery

open Stored (Follow Answered Distinct)

/-- A page is passed on with its first items; the others are dropped. Its last key stays, and it is marked as
truncated if there are others. -/
structure Page.CutTo (received passed : Page) (dropped : List Value) : Prop where
  items : received.items = passed.items ++ dropped
  lastKey : passed.lastKey = received.lastKey
  marked : dropped ≠ [] → passed.truncated = true

namespace Caps

variable (caps : Caps) (tally : Tally) (page : Page)

private theorem cut_cases :
    caps.cut tally page = page ∨ ∃ cap, caps.records = some cap ∧ cap - tally.records < page.count ∧
      caps.cut tally page = page.truncate (cap - tally.records) := by
  unfold cut
  cases caps.records with
  | none => exact .inl rfl
  | some cap =>
    dsimp only
    by_cases excess : cap - tally.records < page.count
    · rw [if_pos excess]
      exact .inr ⟨cap, rfl, excess, rfl⟩
    · rw [if_neg excess]
      exact .inl rfl

private theorem cut_cutTo : ∃ dropped, page.CutTo (caps.cut tally page) dropped := by
  rcases caps.cut_cases tally page with whole | ⟨cap, -, -, part⟩
  · rw [whole]
    exact ⟨[], (List.append_nil _).symm, rfl, fun some_dropped => absurd rfl some_dropped⟩
  · rw [part]
    exact ⟨page.items.drop (cap - tally.records).toNat, (List.take_append_drop ..).symm, rfl, fun _ => rfl⟩

variable {caps tally page}

private theorem dropped_of_truncated {dropped : List Value} (below : caps.full tally = false)
    (counted : page.count = page.items.length) (unmarked : page.truncated = false)
    (cut : page.CutTo (caps.cut tally page) dropped) (truncated : (caps.cut tally page).truncated = true) :
    dropped ≠ [] := by
  rintro rfl
  rcases caps.cut_cases tally page with whole | ⟨cap, hcap, excess, part⟩
  · rw [whole, unmarked] at truncated
    cases truncated
  · have unreached : ¬ cap ≤ tally.records := by
      rw [full, Bool.or_eq_false_iff] at below
      simpa [reached, hcap] using below.1
    rw [part] at cut
    have kept : page.items = page.items.take (cap - tally.records).toNat := cut.items.trans (List.append_nil _)
    have fewer := List.length_take_le (cap - tally.records).toNat page.items
    rw [← kept] at fewer
    omega

private theorem settle_page? {result : StepResult} (given : result.page? = some page) :
    (caps.settle tally result page).1.page? = some (caps.cut tally page) := by
  cases full : caps.full (tally.plus page) with
  | true =>
    rw [settle_of_full result full]
    rfl
  | false => rw [settle_of_not_full result full, cut_of_not_full full, given]

end Caps

private theorem Stage.limit_cuts {σ : Type} {caps : Caps} {tally : Tally} {patience : σ → Nat}
    {inner : Record → σ → Run σ StepResult} {request : Record} {state : σ} {result : StepResult}
    {received : Page} (below : caps.usedUp tally = false)
    (called : (inner (caps.limited tally request) state).outcome = .ok result)
    (given : result.page? = some received) : ∃ settled passed dropped,
      ((limit caps tally).around patience inner request state).outcome = .ok settled ∧
        settled.page? = some passed ∧ received.CutTo passed dropped := by
  obtain ⟨dropped, cut⟩ := caps.cut_cutTo tally received
  refine ⟨(caps.settle tally result received).1, _, dropped, ?_, Caps.settle_page? given, cut⟩
  rw [around, if_neg (by rw [below]; exact Bool.false_ne_true), settled, called]
  simp only [settleTally, given]

private theorem Retry.answered_of_loop {σ : Type} (retry : Retry) (service : Service σ) (request : Record)
    (fuel attempts : Nat) (state : σ) {page : Page}
    (h : (retry.loop (service.send request) fuel attempts state).outcome = .ok (.more page)) :
    ∃ state, (service.answer request state).1 = .ok page := by
  have sent : ∀ {state : σ}, (service.send request state).outcome = .ok (.more page) →
      ∃ state, (service.answer request state).1 = .ok page := by
    intro state h
    obtain ⟨answer, answered, same⟩ := map_eq_ok.mp h
    obtain rfl := StepResult.more.inj same
    exact ⟨state, answered⟩
  induction fuel generalizing attempts state with
  | zero => exact sent h
  | succ fuel ih =>
    rw [loop] at h
    split at h
    · split at h
      · cases h
      · exact ih _ _ h
    · exact sent h

private theorem Page.ofResponse_truncated {response : Record} {page : Page} (h : ofResponse response = .ok page) :
    page.truncated = false := by
  obtain ⟨items, -, h⟩ := bind_eq_ok.mp h
  obtain ⟨count, -, h⟩ := bind_eq_ok.mp h
  obtain ⟨scannedCount, -, h⟩ := bind_eq_ok.mp h
  obtain rfl := pure_eq_ok.mp h
  rfl

/-- The answers of a client to the requests that differ from a given one in their paging fields at most evaluate
records right after the start key, as many as the client likes: the empty request of the answer sets no limit. Their
last keys are key maps. Whatever its state, the client may throttle or fail instead. -/
def Client.AnswersLike {σ : Type} (client : Client σ) (operation : Operation) (like : Record)
    (store : List Stored) (keep : Stored → Bool) : Prop :=
  ∀ request state response left, request.without Request.paging = like.without Request.paging →
    (client.call operation request state).1 = .ok response →
    Follow store (request.get "ExclusiveStartKey") left →
    ∃ evaluated rest, left = evaluated ++ rest ∧ Answered keep [] evaluated rest response ∧
      ∀ key : Record, response.get "LastEvaluatedKey" = .map key → key.IsKeyMap

/-- A client that asks another one for pages of its own size, whatever the limit of a request. -/
def Client.sized {σ : Type} (client : Client σ) (size : Int) : Client σ :=
  { client with call := fun operation request => client.call operation (request.put "Limit" (.int size)) }

private theorem Client.HonoursLike.sized {σ : Type} {client : Client σ} {operation : Operation} {like : Record}
    {store : List Stored} {keep : Stored → Bool} (honours : client.HonoursLike operation like store keep)
    (distinct : Distinct store) (size : Int) : (client.sized size).AnswersLike operation like store keep := by
  intro request state response left same called follow
  have other : ("Limit" : Text) ≠ "ExclusiveStartKey" := by simp
  have limit : ("Limit" : Text) ∈ Request.paging := List.mem_cons_self
  have startKey := Record.get_put_of_ne request (.int size) other
  obtain ⟨evaluated, rest, given, next, follow', answer, answered, keyMaps⟩ :=
    honours (request.put "Limit" (.int size)) state ((Record.without_put limit request (.int size)).trans same)
      ⟨left, startKey ▸ follow⟩
  obtain rfl := follow.unique distinct (startKey ▸ follow')
  obtain rfl : response = given := Except.ok.inj (called.symm.trans (congrArg Prod.fst answer))
  refine ⟨evaluated, rest, rfl, { answered with within := ?_ }, keyMaps⟩
  intro n unlimited
  cases unlimited

/-- Pages bring what the filter keeps of some records, but for the items that are dropped from the last of them;
and that one leaves the records behind, dropped ones not among them. -/
structure Stored.Brought (pages : List Page) (store : List Stored) (keep : Stored → Bool)
    (evaluated rest : List Stored) (dropped : List Value) : Prop where
  items : pages.flatMap Page.items ++ dropped = (evaluated.filter keep).map item
  last : ∃ last, pages.getLast? = some last ∧ (last.truncated = true ↔ dropped ≠ []) ∧ last.Leaves store rest

open Stored (Brought)

private theorem Stored.Answered.of_read {evaluated rest : List Stored} {keep : Stored → Bool}
    {request response : Record}
    {page : Page} (answered : Answered keep request evaluated rest response)
    (read : Page.ofResponse response = .ok page) :
    page.items = (evaluated.filter keep).map item ∧ page.count = (evaluated.filter keep).length ∧
      page.lastKey =
        if (response.get "LastEvaluatedKey").isTruthy then response.get "LastEvaluatedKey" else .null := by
  obtain ⟨given, hgiven, items, count, -, lastKey⟩ := answered.page
  obtain rfl := Except.ok.inj (read.symm.trans hgiven)
  exact ⟨items, count, lastKey⟩

private theorem Stored.Brought.of_cut {caps : Caps} {tally : Tally} (below : caps.full tally = false)
    {store : List Stored}
    (distinct : Distinct store) (keyed : ∀ record ∈ store, record.key.IsKeyMap) {key : Value} {keep : Stored → Bool}
    {evaluated rest : List Stored} {request response : Record} {page : Page}
    (read : Page.ofResponse response = .ok page) (follow : Follow store key (evaluated ++ rest))
    (answered : Answered keep request evaluated rest response)
    (keyMaps : ∀ key : Record, response.get "LastEvaluatedKey" = .map key → key.IsKeyMap) :
    ∃ dropped, page.CutTo (caps.cut tally page) dropped ∧
      Brought [caps.cut tally page] store keep evaluated rest dropped := by
  obtain ⟨items, count, lastKey⟩ := answered.of_read read
  obtain ⟨dropped, cut⟩ := caps.cut_cutTo tally page
  have counted : page.count = page.items.length := by rw [count, items, List.length_map]
  have marked : (caps.cut tally page).truncated = true ↔ dropped ≠ [] :=
    ⟨Caps.dropped_of_truncated below counted (Page.ofResponse_truncated read) cut, cut.marked⟩
  have leaves : (caps.cut tally page).Leaves store rest :=
    Page.leaves_of_answered distinct keyed follow answered keyMaps (cut.lastKey.trans lastKey)
  refine ⟨dropped, cut, ?_, _, rfl, marked, leaves⟩
  rw [List.flatMap_singleton, ← cut.items, items]

private theorem Stored.Brought.cons {page : Page} {pages : List Page} {store evaluated rest later others : List Stored}
    {keep : Stored → Bool} {dropped : List Value} (first : Brought [page] store keep evaluated rest [])
    (further : Brought pages store keep later others dropped) :
    Brought (page :: pages) store keep (evaluated ++ later) others dropped := by
  obtain ⟨last, hlast, marked, leaves⟩ := further.last
  refine ⟨?_, last, ?_, marked, leaves⟩
  · have front : page.items = (evaluated.filter keep).map item := by simpa using first.items
    rw [List.flatMap_cons, List.append_assoc, further.items, front, List.filter_append, List.map_append]
  · rw [List.getLast?_cons, hlast, Option.getD_some]

namespace Reading

section Runs

variable {σ : Type} {client : Client σ} (reading : Reading) {like request : Record} {store : List Stored}
  {keep : Stored → Bool} (distinct : Distinct store) (keyed : ∀ record ∈ store, record.key.IsKeyMap)
  (answers : client.AnswersLike reading.operation like store keep)
  (same : request.without Request.paging = like.without Request.paging) (retry : Retry)

include distinct keyed answers same

/-- A reading that is asked for a page fails, or yields one that brings the records at its place but for those it
drops. Then it has ended, or it dropped nothing and goes on where the page ended. -/
private theorem advance_brings {position : Position} {left : List Stored}
    (below : reading.caps.full position.tally = false)
    (follow : Follow store ((requestAt reading.caps position request).get "ExclusiveStartKey") left)
    (state : σ) :
    let pull := reading.advance client request (stagesAt reading.caps retry position) state
    (∃ fault, pull.outcome = .error fault) ∨
      ∃ page evaluated rest dropped, pull.outcome = .ok (some page) ∧ left = evaluated ++ rest ∧
        Brought [page] store keep evaluated rest dropped ∧
        (pull.progress = .ended ∨ dropped = [] ∧ ∃ position', reading.caps.full position'.tally = false ∧
          pull.progress = .running request (stagesAt reading.caps retry position') ∧
          Follow store ((requestAt reading.caps position' request).get "ExclusiveStartKey") rest) := by
  cases called : (reading.callsAt client reading.caps retry position request state).outcome with
  | error fault =>
    rw [advance_of_calls_fault below called]
    exact .inl ⟨fault, rfl⟩
  | ok result =>
    obtain ⟨received, rfl⟩ := Retry.loop_eq_more retry _ _ _ _ _ called
    obtain ⟨before, answer⟩ := Retry.answered_of_loop retry _ _ _ _ _ called
    obtain ⟨response, responded, read⟩ := Client.pageOf_eq_ok answer
    obtain ⟨evaluated, rest, rfl, answered, keyMaps⟩ := answers _ before response left
      ((requestAt_without reading.caps position request).trans same) responded follow
    obtain ⟨dropped, cut, brings⟩ :=
      Stored.Brought.of_cut below distinct keyed read follow answered keyMaps
    rw [advance_of_calls_page below called]
    refine .inr ⟨_, evaluated, rest, dropped, rfl, rfl, brings, ?_⟩
    cases ends : reading.caps.endsWith position.tally received with
    | true => exact .inl rfl
    | false =>
      -- What goes on has not reached its caps, so its page was passed on whole.
      rw [Caps.cut_of_not_full (Caps.not_full_of_endsWith ends)] at cut
      obtain ⟨-, -, lastKey⟩ := answered.of_read read
      obtain ⟨-, unreached, follow_rest⟩ := follow_past follow answered lastKey ends
      exact .inr ⟨List.self_eq_append_right.mp cut.items, position.past received, unreached, rfl, follow_rest⟩

/-- However many pages are asked for, those that are taken bring a first part of what is left, but for what the last
one has dropped. -/
private theorem drain_brought (fuel : Nat) {position : Position} {left : List Stored}
    (below : reading.caps.full position.tally = false)
    (follow : Follow store ((requestAt reading.caps position request).get "ExclusiveStartKey") left)
    (state : σ) :
    let drain := drainWithin (reading.pullPage client) fuel
      (.running request (stagesAt reading.caps retry position)) state
    drain.taken = [] ∨ ∃ evaluated rest dropped, left = evaluated ++ rest ∧
      Brought drain.taken store keep evaluated rest dropped := by
  -- A page after which the reading goes on has dropped nothing, so what the later pages bring follows its items.
  induction fuel generalizing position left state with
  | zero => exact .inl rfl
  | succ fuel ih =>
    rcases reading.advance_brings distinct keyed answers same retry below follow state with
      ⟨fault, failed⟩ | ⟨page, evaluated, rest, dropped, yielded, rfl, brings, next⟩
    · refine .inl ?_
      simp only [drainWithin, pullPage, failed]
    · refine .inr ?_
      simp only [drainWithin, pullPage, yielded]
      rcases next with ended | ⟨rfl, position', unreached, running, follow_rest⟩
      · rw [ended, drainWithin_ended]
        exact ⟨evaluated, rest, dropped, rfl, brings⟩
      · rw [running]
        rcases ih unreached follow_rest _ with none_taken | ⟨later, others, dropped, rfl, further⟩
        · rw [none_taken]
          exact ⟨evaluated, rest, [], rfl, brings⟩
        · exact ⟨evaluated ++ later, others, dropped, (List.append_assoc ..).symm, brings.cons further⟩

end Runs

end Reading

namespace Leg

variable {σ : Type} {client : Client σ}

private theorem drain_brought {leg : Leg σ} {whole : Reading} (runs : leg.RunsLike whole) {request : Record}
    (built : whole.request = .ok request) {store : List Stored} (distinct : Distinct store)
    (keyed : ∀ record ∈ store, record.key.IsKeyMap) {keep : Stored → Bool}
    (answers : client.AnswersLike whole.operation request store keep) {start : Option Record}
    (starts : StartKey.ofOption (leg.reading.selected.get "exclusive_start_key") = .ok start)
    {left : List Stored} (follow : Follow store leg.reading.startKey left) :
    (leg.drain client).taken = [] ∨ ∃ evaluated rest dropped, left = evaluated ++ rest ∧
      Brought (leg.drain client).taken store keep evaluated rest dropped := by
  obtain ⟨reframed, retry, same, below, follow', pulls, -, opens⟩ := runs.opened client built starts follow
  rw [opens]
  exact leg.reading.drain_brought distinct keyed (runs.alike.operation ▸ answers) same retry (pulls + 1) below
    follow' leg.state

/-- **A page that was cut is resumed past the items that it dropped.** A limit stage passes on the last key of every
page that it receives, also when it drops items of it. So a run against a client whose answers may exceed their
limits, and a run that goes on from the cursor of its last page, yield the first items of those that are left except
the items that this page has dropped, and it has dropped some just when it is marked as truncated. Without a cursor
nothing but these remains. -/
theorem resuming_skips_dropped {leg : Leg σ} {request : Record} (built : leg.reading.request = .ok request)
    (staged : ∃ stages, leg.reading.stages = .ok stages) {store : List Stored} (distinct : Distinct store)
    (keyed : ∀ record ∈ store, record.key.IsKeyMap) {keep : Stored → Bool}
    (answers : client.AnswersLike leg.reading.operation request store keep) {left : List Stored}
    (starts : Follow store leg.reading.startKey left) {last : Page}
    (yields : (leg.drain client).taken.getLast? = some last) :
    (∀ (τ : Type) (caps : Caps) (tally : Tally) (patience : τ → Nat) (inner : Record → τ → Run τ StepResult)
      (asked : Record) (state : τ) (result : StepResult) (received : Page), caps.usedUp tally = false →
      (inner (caps.limited tally asked) state).outcome = .ok result → result.page? = some received →
      ∃ settled passed dropped, ((Stage.limit caps tally).around patience inner asked state).outcome = .ok settled ∧
        settled.page? = some passed ∧ received.CutTo passed dropped) ∧
    ∃ dropped cursor?, (last.truncated = true ↔ dropped ≠ []) ∧
      leg.items client ++ dropped <+: (left.filter keep).map Stored.item ∧
      last.nextCursor = .ok cursor? ∧
      (cursor? = none → leg.items client ++ dropped = (left.filter keep).map Stored.item) ∧
      ∀ next : Leg σ, next.RunsLike leg.reading → leg.GoesOn client next →
        leg.items client ++ dropped ++ next.items client <+: (left.filter keep).map Stored.item := by
  refine ⟨fun _ _ _ _ _ _ _ _ _ below called given => Stage.limit_cuts below called given, ?_⟩
  have asked : 0 < leg.pulls := by
    by_contra unasked
    rw [drain, Nat.eq_zero_of_not_pos unasked] at yields
    cases yields
  obtain ⟨start, hstart⟩ := Reading.start_of_request built
  rcases drain_brought ⟨.refl built, staged, asked⟩ built distinct keyed answers hstart starts with
    none_taken | ⟨evaluated, rest, dropped, rfl, brings⟩
  · rw [none_taken] at yields
    cases yields
  · obtain ⟨page, hpage, marked, leaves⟩ := brings.last
    obtain rfl := Option.some.inj (hpage.symm.trans yields)
    have front : leg.items client ++ dropped = (evaluated.filter keep).map Stored.item := brings.items
    obtain ⟨cursor?, given⟩ := leaves.nextCursor
    rw [List.filter_append, List.map_append]
    refine ⟨dropped, cursor?, marked, ?_, given, ?_, ?_⟩
    · rw [front]
      exact List.prefix_append _ _
    · rintro rfl
      rw [front, leaves.eq_nil given]
      exact (List.append_nil _).symm
    · intro next runs goes_on
      obtain ⟨start', read, follow⟩ := goes_on.starts hpage leaves
      rw [front, List.prefix_append_right_inj]
      rcases drain_brought runs built distinct keyed answers read follow with
        none_taken | ⟨later, others, dropped', rfl, brings'⟩
      · rw [Leg.items, none_taken]
        exact List.nil_prefix
      · rw [List.filter_append, List.map_append, ← brings'.items]
        exact (List.prefix_append _ _).trans (List.prefix_append _ _)

/-- A client over six records that answers with two of them when it likes to, though it is asked for one. -/
def twoForOne : Client (List Nat) := (Client.overStore Reading.sixEvents fun _ => true).sized 2

def cutRun : Leg (List Nat) := ⟨queryIn [("record_limit", .int 1)], 3, [1]⟩

def afterSecond : Text := "eyJpZCI6eyJTIjoiYiJ9fQ"

def resumedRun : Leg (List Nat) :=
  ⟨queryIn [("record_limit", .int 1), ("exclusive_start_key", .text afterSecond)], 1, []⟩

private theorem cutRun_taken :
    (cutRun.drain twoForOne).taken.map (fun page => (page.items.length, page.truncated)) = [(1, true)] := by
  decide +kernel

private theorem cutRun_goesOn : cutRun.GoesOn twoForOne resumedRun :=
  ⟨afterSecond, by decide +kernel, rfl⟩

private theorem resumedRun_runsLike : resumedRun.RunsLike cutRun.reading where
  alike := @Reading.alike_of_frame cutRun.reading [("hash_value", .text "x"), ("record_limit", .int 1)]
    [("exclusive_start_key", .text afterSecond)] rfl (by decide) (by decide)
  staged := ⟨_, rfl⟩
  asked := Nat.one_pos

/-- The run for one record drops the second one, and the run that goes on from it starts with the third. -/
theorem resuming_skips_dropped_of_two_for_one :
    ∃ request last dropped, cutRun.reading.request = .ok request ∧
      (∃ stages, cutRun.reading.stages = .ok stages) ∧
      Distinct Reading.sixEvents ∧ (∀ record ∈ Reading.sixEvents, record.key.IsKeyMap) ∧
      twoForOne.AnswersLike .query request Reading.sixEvents (fun _ => true) ∧
      Follow Reading.sixEvents cutRun.reading.startKey Reading.sixEvents ∧
      (cutRun.drain twoForOne).taken.getLast? = some last ∧ last.truncated = true ∧ dropped ≠ [] ∧
      cutRun.items twoForOne ++ dropped ++ resumedRun.items twoForOne <+:
        (Reading.sixEvents.filter fun _ => true).map Stored.item := by
  have distinct : Distinct Reading.sixEvents := Stored.distinct_ofText (by decide)
  have keyed := sixEvents_isKeyMap
  obtain ⟨request, built⟩ : ∃ request, cutRun.reading.request = .ok request := ⟨_, rfl⟩
  have staged : ∃ stages, cutRun.reading.stages = .ok stages := ⟨_, rfl⟩
  have answers : twoForOne.AnswersLike .query request Reading.sixEvents fun _ => true :=
    (Client.overStore_honoursLike .query request _ distinct keyed).sized distinct 2
  have starts : Follow Reading.sixEvents cutRun.reading.startKey Reading.sixEvents := by
    rw [show cutRun.reading.startKey = .null from rfl]
    exact .start
  obtain ⟨last, single, shape⟩ := List.map_eq_singleton_iff.mp cutRun_taken
  have truncated : last.truncated = true := congrArg Prod.snd shape
  have yields : (cutRun.drain twoForOne).taken.getLast? = some last := by
    rw [single]
    rfl
  obtain ⟨-, dropped, cursor?, marked, -, -, -, continues⟩ :=
    resuming_skips_dropped built staged distinct keyed answers starts yields
  exact ⟨request, last, dropped, built, staged, distinct, keyed, answers, starts, yields, truncated,
    marked.mp truncated, continues resumedRun resumedRun_runsLike cutRun_goesOn⟩

/-- The page that was cut to the first record keeps the key of the second one, and so does its cursor. The run that
goes on from it does not yield the second record, which has not been yielded yet. -/
theorem cut_page_keeps_lastKey :
    (cutRun.drain twoForOne).taken.map (fun page => (page.items.length, page.truncated)) = [(1, true)] ∧
      resumedRun.RunsLike cutRun.reading ∧ cutRun.GoesOn twoForOne resumedRun ∧
      (resumedRun.drain twoForOne).fault = none ∧
      ¬ cutRun.items twoForOne ++ resumedRun.items twoForOne <+: Reading.sixEvents.map Stored.item := by
  have ran : (cutRun.items twoForOne ++ resumedRun.items twoForOne).map Value.isTruthy = [true, true] := by
    decide +kernel
  refine ⟨cutRun_taken, resumedRun_runsLike, cutRun_goesOn, by decide +kernel, ?_⟩
  intro continues
  have also := continues.map Value.isTruthy
  rw [ran] at also
  revert also
  decide

end Leg

end TableQuery
