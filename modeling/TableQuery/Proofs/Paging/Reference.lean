/- Paging against its reference.

   Over a store, a reading is to bring what a single pass would: of the records after the start key, the
   first ones up to the cap on evaluated records, of these the ones that the filter keeps, and of these the
   first ones up to the cap on records. A client that honours requests may cut the pass into pages as it
   likes. -/

import TableQuery.Proofs.Paging.PageSequence
import TableQuery.Proofs.Paging.Store

set_option autoImplicit false
set_option relaxedAutoImplicit false

namespace TableQuery

open Stored (Follow Answered Distinct)

namespace Caps

/-- The first values of a list, as many as a cap admits. -/
def upTo {α : Type} : Option Int → List α → List α
  | none, values => values
  | some cap, values => values.take cap.toNat

/-- What a single pass over the records that are left brings. -/
def reference (caps : Caps) (keep : Stored → Bool) (left : List Stored) : List Stored :=
  upTo caps.records ((upTo caps.scanned left).filter keep)

def after (caps : Caps) (tally : Tally) : Caps :=
  { caps with records := left caps.records tally.records, scanned := left caps.scanned tally.scanned }

private theorem pageLimit?_le {caps : Caps} {tally : Tally} (below : caps.full tally = false) {most : Int}
    (h : most ∈ caps.remaining tally) :
    ∃ n, caps.pageLimit? tally = some n ∧ 0 < n ∧ n ≤ most := by
  have positive : 0 < most := by
    have unused := (Caps.usedUp_eq_full caps tally).trans below
    rw [usedUp, List.any_eq_false] at unused
    simpa using unused most h
  have mem : most ∈ caps.remaining tally ++ caps.batch.toList := List.mem_append_left _ h
  obtain ⟨least, hleast⟩ := List.isSome_min?_of_mem mem |> Option.isSome_iff_exists.mp
  have least_le := (List.min?_eq_some_iff.mp hleast).2 most mem
  exact ⟨max 1 least, by rw [pageLimit?, hleast]; rfl, by omega, by omega⟩

theorem mem_remaining_records {caps : Caps} {tally : Tally} {cap : Int}
    (h : caps.records = some cap) : cap - tally.records ∈ caps.remaining tally := by
  simp [remaining, left, h]

theorem mem_remaining_scanned {caps : Caps} {tally : Tally} {cap : Int}
    (h : caps.scanned = some cap) : cap - tally.scanned ∈ caps.remaining tally := by
  simp [remaining, left, h]

private theorem upTo_left_append {α : Type} {cap : Option Int} {spent : Int} {front : List α}
    (room : ∀ most, cap = some most → front.length ≤ most - spent) (more : List α) :
    upTo (left cap spent) (front ++ more) = front ++ upTo (left cap (spent + front.length)) more := by
  cases cap with
  | none => rfl
  | some most =>
    have within := room most rfl
    simp only [left, Option.map_some, upTo]
    rw [List.take_append, List.take_of_length_le (by omega)]
    congr 2
    omega

private theorem reference_append {caps : Caps} {tally : Tally} {keep : Stored → Bool} {page : Page}
    {evaluated : List Stored} (rest : List Stored)
    (scanned : ∀ cap, caps.scanned = some cap → evaluated.length ≤ cap - tally.scanned)
    (records : ∀ cap, caps.records = some cap → (evaluated.filter keep).length ≤ cap - tally.records)
    (count : page.count = (evaluated.filter keep).length)
    (scannedCount : page.scannedCount = evaluated.length) :
    (caps.after tally).reference keep (evaluated ++ rest) =
      evaluated.filter keep ++ (caps.after (tally.plus page)).reference keep rest := by
  simp only [reference, after, Tally.plus_records, Tally.plus_scanned, count, scannedCount]
  rw [upTo_left_append scanned, List.filter_append, upTo_left_append records]

private theorem reference_of_full {caps : Caps} {tally : Tally} {keep : Stored → Bool} {left : List Stored}
    (full : caps.full tally = true) : (caps.after tally).reference keep left = [] := by
  rcases full_iff.mp full with ⟨cap, hcap, reached⟩ | ⟨cap, hcap, reached⟩
  · have none_left : (cap - tally.records).toNat = 0 := by omega
    simp [reference, after, Caps.left, hcap, upTo, none_left]
  · have none_left : (cap - tally.scanned).toNat = 0 := by omega
    have nothing : upTo (Caps.left caps.scanned tally.scanned) left = [] := by
      simp [Caps.left, hcap, upTo, none_left]
    simp only [reference, after, nothing, List.filter_nil]
    cases Caps.left caps.records tally.records <;> simp [upTo]

private theorem reference_nil (caps : Caps) (keep : Stored → Bool) : caps.reference keep [] = [] := by
  have empty : ∀ cap, upTo cap ([] : List Stored) = [] := by
    rintro (_ | cap) <;> simp [upTo]
  simp [reference, empty]

end Caps

theorem Stored.Answered.page {keep : Stored → Bool} {request : Record} {evaluated rest : List Stored}
    {response : Record} (answered : Answered keep request evaluated rest response) :
    ∃ page, Page.ofResponse response = .ok page ∧
      page.items = (evaluated.filter keep).map Stored.item ∧
      page.count = (evaluated.filter keep).length ∧ page.scannedCount = evaluated.length ∧
      page.lastKey = if (response.get "LastEvaluatedKey").isTruthy
        then response.get "LastEvaluatedKey" else .null := by
  have items : Page.itemsOf (response.get "Items") =
      .ok ((evaluated.filter keep).map Stored.item) := by
    rw [answered.items, Page.itemsOf, Value.elements]
    cases (evaluated.filter keep).map Stored.item <;> rfl
  have counted : ∀ given (n : Int) default, given = .int n → Page.countOr given default = .ok n := by
    rintro _ n default rfl
    rfl
  exact ⟨_, Page.ofResponse_of_parts items (counted _ _ _ answered.count)
    (counted _ _ _ answered.scanned), rfl, rfl, rfl, rfl⟩

namespace Reading

theorem requestAt_startKey (caps : Caps) (position : Position) (request : Record) :
    (requestAt caps position request).get "ExclusiveStartKey" =
      if position.key.isTruthy then position.key else request.get "ExclusiveStartKey" := by
  have other : ("Limit" : Text) ≠ "ExclusiveStartKey" := by simp
  have limited : ∀ request, (caps.limited position.tally request).get "ExclusiveStartKey" =
      request.get "ExclusiveStartKey" := by
    intro request
    unfold Caps.limited
    split
    · exact Record.get_put_of_ne _ _ other
    · rfl
  rw [requestAt, limited, Stage.started]
  split
  · rw [Record.get_put_self]
  · rfl

private theorem requestAt_limit {caps : Caps} {position : Position} (request : Record) {n : Int}
    (h : caps.pageLimit? position.tally = some n) :
    (requestAt caps position request).get "Limit" = .int n := by
  rw [requestAt, Caps.limited, h, Record.get_put_self]

private theorem answered_le {caps : Caps} {position : Position} {request : Record} {keep : Stored → Bool}
    {evaluated rest : List Stored} {response : Record}
    (below : caps.full position.tally = false)
    (answered : Answered keep (requestAt caps position request) evaluated rest response) {most : Int}
    (h : most ∈ caps.remaining position.tally) : evaluated.length ≤ most := by
  obtain ⟨n, limit, positive, le⟩ := Caps.pageLimit?_le below h
  have within := answered.within n (requestAt_limit request limit) positive
  omega

private theorem reference_of_endsWith {caps : Caps} {tally : Tally} {page : Page} {store : List Stored}
    (distinct : Distinct store) {keep : Stored → Bool} {request : Record} {evaluated rest : List Stored}
    {response : Record} (follow : Follow store (request.get "ExclusiveStartKey") (evaluated ++ rest))
    (answered : Answered keep request evaluated rest response)
    (lastKey : page.lastKey = if (response.get "LastEvaluatedKey").isTruthy
      then response.get "LastEvaluatedKey" else .null)
    (ends : caps.endsWith tally page = true) :
    (caps.after (tally.plus page)).reference keep rest = [] := by
  rw [Caps.endsWith, Bool.or_eq_true] at ends
  rcases ends with full | keyless
  · exact Caps.reference_of_full full
  · have none_given : (response.get "LastEvaluatedKey").isTruthy = false := by
      by_contra given
      rw [lastKey, if_pos (by simpa using given)] at keyless
      exact given (by simpa using keyless)
    rw [answered.rest_eq_nil distinct follow none_given, Caps.reference_nil]

private theorem kept_le {caps : Caps} {position : Position} {request : Record} {keep : Stored → Bool}
    {evaluated rest : List Stored} {response : Record} (below : caps.full position.tally = false)
    (answered : Answered keep (requestAt caps position request) evaluated rest response) {cap : Int}
    (hcap : caps.records = some cap) :
    (evaluated.filter keep).length ≤ cap - position.tally.records := by
  have within := answered_le below answered (Caps.mem_remaining_records hcap)
  have filtered := List.length_filter_le keep evaluated
  omega

theorem advance_of_answered {σ : Type} {reading : Reading} {keep : Stored → Bool} {client : Client σ}
    {request : Record} (retry : Retry) {position : Position} {evaluated rest : List Stored}
    {response : Record} {state next : σ} (below : reading.caps.full position.tally = false)
    (called : client.call reading.operation (requestAt reading.caps position request) state =
      (.ok response, next))
    (answered : Answered keep (requestAt reading.caps position request) evaluated rest response) :
    ∃ page : Page, page.items = (evaluated.filter keep).map Stored.item ∧
      page.count = (evaluated.filter keep).length ∧ page.scannedCount = evaluated.length ∧
      page.lastKey = (if (response.get "LastEvaluatedKey").isTruthy
        then response.get "LastEvaluatedKey" else .null) ∧
      reading.advance client request (stagesAt reading.caps retry position) state =
        { outcome := .ok (some page),
          events := [.sent (requestAt reading.caps position request)],
          progress := if reading.caps.endsWith position.tally page then .ended
            else .running request (stagesAt reading.caps retry (position.past page)),
          state := next } := by
  obtain ⟨page, hpage, items, count, scannedCount, lastKey⟩ := answered.page
  have answer : (client.service reading.operation).answer (requestAt reading.caps position request)
      state = (.ok page, next) := by
    simp only [Client.service, called, Client.pageOf, hpage]
  have uncut : reading.caps.cut position.tally page = page :=
    Caps.cut_of_le fun cap hcap => count ▸ kept_le below answered hcap
  refine ⟨page, items, count, scannedCount, lastKey, ?_⟩
  rw [advance_of_page retry below answer, uncut]

theorem follow_past {caps : Caps} {position : Position} {page : Page} {store : List Stored}
    {keep : Stored → Bool} {request asked : Record} {evaluated rest : List Stored} {response : Record}
    (follow : Follow store ((requestAt caps position request).get "ExclusiveStartKey") (evaluated ++ rest))
    (answered : Answered keep asked evaluated rest response)
    (lastKey : page.lastKey = if (response.get "LastEvaluatedKey").isTruthy
      then response.get "LastEvaluatedKey" else .null)
    (goes_on : caps.endsWith position.tally page = false) :
    evaluated ≠ [] ∧ caps.full (position.past page).tally = false ∧
      Follow store ((requestAt caps (position.past page) request).get "ExclusiveStartKey") rest := by
  rw [Caps.endsWith, Bool.or_eq_false_iff] at goes_on
  have given : (response.get "LastEvaluatedKey").isTruthy = true := by
    by_contra absent
    rw [lastKey, if_neg absent] at goes_on
    cases goes_on.2
  rw [if_pos given] at lastKey
  obtain ⟨some_evaluated, follow_rest⟩ := answered.follow_lastKey follow given
  refine ⟨some_evaluated, goes_on.1, ?_⟩
  rw [requestAt_startKey, Position.past, lastKey, if_pos given]
  exact follow_rest

/-- From wherever it stands, a reading brings what a single pass over the records that are left would. -/
private theorem drain_honoured [DepthLimits] {σ : Type} (reading : Reading) {store : List Stored}
    (distinct : Distinct store)
    {keep : Stored → Bool} {client : Client σ} (honours : client.Honours reading.operation store keep)
    {request : Record} (retry : Retry) (fuel : Nat) {position : Position} {left : List Stored}
    (below : reading.caps.full position.tally = false)
    (follow : Follow store ((requestAt reading.caps position request).get "ExclusiveStartKey") left)
    (enough : left.length < fuel) (state : σ) :
    let drain := drainWithin (reading.pullPage client) fuel
      (.running request (stagesAt reading.caps retry position)) state
    drain.fault = none ∧ drain.progress = .ended ∧
      drain.taken.flatMap Page.items =
        ((reading.caps.after position.tally).reference keep left).map Stored.item := by
  induction fuel generalizing position left state with
  | zero => omega
  | succ fuel ih =>
    obtain ⟨evaluated, rest, response, next, follow', called, answered⟩ :=
      honours (requestAt reading.caps position request) state ⟨left, follow⟩
    obtain rfl := follow.unique distinct follow'
    obtain ⟨page, items, count, scannedCount, lastKey, advanced⟩ :=
      advance_of_answered retry below called answered
    have scanned : ∀ cap, reading.caps.scanned = some cap →
        evaluated.length ≤ cap - position.tally.scanned := fun _ hcap =>
      answered_le below answered (Caps.mem_remaining_scanned hcap)
    have pass := Caps.reference_append rest scanned (fun _ => kept_le below answered) count scannedCount
    rw [drainWithin_of_some fuel advanced, pass, List.map_append, ← items]
    cases ends : reading.caps.endsWith position.tally page with
    | true =>
      have nothing := reference_of_endsWith distinct follow answered lastKey ends
      simp [drainWithin_ended, nothing]
    | false =>
      obtain ⟨some_evaluated, unreached, follow_rest⟩ := follow_past follow answered lastKey ends
      have shorter : rest.length < fuel := by
        have positive := List.length_pos_iff.mpr some_evaluated
        rw [List.length_append] at enough
        omega
      obtain ⟨fault, progress, taken⟩ := ih unreached follow_rest shorter next
      simp only [Bool.false_eq_true, ↓reduceIte, List.flatMap_cons]
      exact ⟨fault, progress, congrArg (page.items ++ ·) taken⟩

/-- Over every store and against every client that honours its requests, reading all pages ends, and
brings what a single pass under the caps of the options would: however often it may be asked, once it can
be asked more often than records are left. -/
theorem paging_eq_reference [DepthLimits] {σ : Type} (reading : Reading) (valid : reading.Valid)
    {store : List Stored} (distinct : Distinct store) {keep : Stored → Bool} {client : Client σ}
    (honours : client.Honours reading.operation store keep) {left : List Stored}
    (starts : Follow store reading.startKey left) (state : σ) (fuel : Nat)
    (enough : left.length < fuel) :
    let drain := drainWithin (reading.pullPage client) fuel .fresh state
    drain.fault = none ∧ drain.progress = .ended ∧
      drain.taken.flatMap Page.items = (reading.caps.reference keep left).map Stored.item := by
  obtain ⟨request, retry, key, below, opened⟩ := reading.opened client valid
  obtain ⟨fuel, rfl⟩ := Nat.exists_eq_succ_of_ne_zero (Nat.ne_of_gt (Nat.zero_lt_of_lt enough))
  have follow : Follow store ((requestAt reading.caps .start request).get "ExclusiveStartKey") left := by
    rw [requestAt_startKey]
    exact key ▸ starts
  have uncounted : reading.caps.after Position.start.tally = reading.caps := by
    cases reading.caps
    simp [Caps.after, Caps.left, Position.start]
  have drained := reading.drain_honoured distinct honours retry (fuel + 1) below follow enough state
  rw [uncounted] at drained
  rw [opened]
  exact drained

def queryForTwo : Reading where
  operation := .query
  table := { name := "events", hashKey := "id", rangeKey := none }
  options := [(.text "hash_value", .text "x"), (.text "limit", .int 2), (.text "scan_limit", .int 4),
    (.text "batch_size", .int 2),
    (.text "exclusive_start_key", .map [(.text "id", Attribute.single "S" (.text "a"))])]
  policy := .constant (.int 0)
  maxRetries := .null

def sixEvents : List Stored :=
  ([("a", .bool true), ("b", .bool false), ("c", .bool true), ("d", .bool false), ("e", .bool true),
    ("f", .bool true)] : List (Text × Value)).map fun entry => .ofText entry.1 entry.2

/-- A client that brings the page cuts one, two and one: the cap on records is reached with the last one
of the four records that may be evaluated. -/
theorem paging_eq_reference_of_cuts :
    let keep : Stored → Bool := fun record => record.item.isTruthy
    let client := Client.overStore sixEvents keep
    let drain := drainWithin (queryForTwo.pullPage client) 6 .fresh [0, 5, 0]
    queryForTwo.Valid ∧ Distinct sixEvents ∧ client.Honours .query sixEvents keep ∧
      Follow sixEvents queryForTwo.startKey (sixEvents.drop 1) ∧
      drain.fault = none ∧ drain.progress = .ended ∧
        drain.taken.flatMap Page.items = [.bool true, .bool true] := by
  intro keep client drain
  have valid : queryForTwo.Valid := ⟨⟨_, rfl⟩, ⟨_, rfl⟩⟩
  have distinct : Distinct sixEvents := Stored.distinct_ofText (by decide)
  have honours : client.Honours .query sixEvents keep :=
    Client.overStore_honours .query keep distinct (by decide)
  have split : sixEvents = [] ++ .ofText "a" (.bool true) :: sixEvents.drop 1 := rfl
  have starts : Follow sixEvents queryForTwo.startKey (sixEvents.drop 1) := .after split (.inl rfl)
  obtain ⟨fault, progress, taken⟩ :=
    paging_eq_reference queryForTwo valid distinct honours starts [0, 5, 0] 6 (by decide)
  exact ⟨valid, distinct, honours, starts, fault, progress, taken⟩

end Reading

end TableQuery
