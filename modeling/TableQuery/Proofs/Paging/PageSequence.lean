/- The pages of a reading, one for each answer.

   Whatever the answers hold, a reading yields one page for each of them, up to the first one that has no
   key to go on after or brings the counts to a cap. Only that last page can differ from its answer: it is
   cut to what the pages before it left of the cap on records. -/

import Mathlib.Algebra.Ring.Int.Defs
import TableQuery.Proofs.Paging.Iteration

set_option autoImplicit false
set_option relaxedAutoImplicit false

namespace TableQuery

/-- An answer whose items, if there are any, lie in a container and whose counts are whole numbers or
absent. -/
structure Page.WellCounted (response : Record) : Prop where
  items : (response.get "Items").isTruthy = true →
    ∃ items, (response.get "Items").elements? = some items
  count : (response.get "Count").isNull = true ∨
    ∃ n, Attribute.wholeOf? (response.get "Count") = some n
  scanned : (response.get "ScannedCount").isNull = true ∨
    ∃ n, Attribute.wholeOf? (response.get "ScannedCount") = some n

/-- The last page that is yielded: it holds no more items than the earlier pages left of the cap on
records. -/
def Caps.lastPage (caps : Caps) (earlier : List Page) (page : Page) : Page :=
  match caps.records with
  | none => page
  | some cap =>
    let allowance := cap - (earlier.map Page.count).sum
    if allowance < page.count then
      { page with items := page.items.take allowance.toNat, count := allowance, truncated := true }
    else page

/-- Reading stops at an answer without a key to go on after, and where the counts reach a cap. -/
def Caps.StopsAt (caps : Caps) (responses : List Record) (pages : List Page) (n : Nat) : Prop :=
  (∃ response, responses[n]? = some response ∧
    (response.get "LastEvaluatedKey").isTruthy = false) ∨
  (∃ cap, caps.records = some cap ∧ cap ≤ ((pages.take (n + 1)).map Page.count).sum) ∨
  ∃ cap, caps.scanned = some cap ∧ cap ≤ ((pages.take (n + 1)).map Page.scannedCount).sum

namespace Page

private theorem countOr_eq_ok {given : Value} (default : Nat)
    (h : given.isNull = true ∨ ∃ n, Attribute.wholeOf? given = some n) :
    ∃ n, countOr given default = .ok n := by
  rcases h with absent | ⟨n, whole⟩
  · exact ⟨default, if_pos absent⟩
  · cases given <;> simp [Attribute.wholeOf?] at whole
    · exact ⟨_, rfl⟩
    · exact ⟨_, rfl⟩

theorem ofResponse_of_parts {response : Record} {items : List Value} {count scannedCount : Int}
    (hitems : itemsOf (response.get "Items") = .ok items)
    (hcount : countOr (response.get "Count") items.length = .ok count)
    (hscanned : countOr (response.get "ScannedCount") items.length = .ok scannedCount) :
    ofResponse response = .ok
      { items, count, scannedCount
        lastKey := if (response.get "LastEvaluatedKey").isTruthy then response.get "LastEvaluatedKey"
          else .null
        consumedCapacity := response.get "ConsumedCapacity"
        truncated := false } := by
  unfold ofResponse
  rw [hitems]
  simp only [bind, Except.bind, hcount, hscanned]
  rfl

private theorem ofResponse_of_wellCounted {response : Record} (h : WellCounted response) :
    ∃ page, ofResponse response = .ok page ∧
      page.lastKey.isTruthy = (response.get "LastEvaluatedKey").isTruthy := by
  have hitems : ∃ items, itemsOf (response.get "Items") = .ok items := by
    unfold itemsOf
    split
    · rename_i present
      obtain ⟨items, helements⟩ := h.items present
      exact ⟨items, by rw [Value.elements, helements]⟩
    · exact ⟨[], rfl⟩
  obtain ⟨items, hitems⟩ := hitems
  obtain ⟨count, hcount⟩ := countOr_eq_ok items.length h.count
  obtain ⟨scanned, hscanned⟩ := countOr_eq_ok items.length h.scanned
  refine ⟨_, ofResponse_of_parts hitems hcount hscanned, ?_⟩
  by_cases key : (response.get "LastEvaluatedKey").isTruthy = true
  · rw [if_pos key]
  · rw [if_neg key, Bool.eq_false_iff.mpr key]
    rfl

end Page

namespace Tally

def total (tally : Tally) (pages : List Page) : Tally := pages.foldl plus tally

private theorem total_cons (tally : Tally) (page : Page) (pages : List Page) :
    tally.total (page :: pages) = (tally.plus page).total pages := rfl

theorem total_eq (tally : Tally) (pages : List Page) :
    tally.total pages =
      ⟨tally.records + (pages.map Page.count).sum, tally.scanned + (pages.map Page.scannedCount).sum⟩ := by
  induction pages generalizing tally with
  | nil => simp [total]
  | cons page pages ih =>
    rw [total_cons, ih, plus_records, plus_scanned, List.map_cons, List.sum_cons, List.map_cons,
      List.sum_cons, Int.add_assoc, Int.add_assoc]

private theorem total_take_succ (tally : Tally) {pages : List Page} {n : Nat} {page : Page}
    (h : pages[n]? = some page) :
    tally.total (pages.take (n + 1)) = (tally.total (pages.take n)).plus page := by
  rw [List.take_add_one, h, Option.toList_some, total, List.foldl_append]
  rfl

end Tally

namespace Caps

theorem full_iff {caps : Caps} {tally : Tally} :
    caps.full tally = true ↔ (∃ cap, caps.records = some cap ∧ cap ≤ tally.records) ∨
      ∃ cap, caps.scanned = some cap ∧ cap ≤ tally.scanned := by
  simp [full, reached, Option.any_eq_true]

private theorem stopsAt_iff {caps : Caps} {responses : List Record} {pages : List Page}
    (read : List.Forall₂ (fun response page =>
      page.lastKey.isTruthy = (response.get "LastEvaluatedKey").isTruthy) responses pages)
    {n : Nat} {page : Page} (h : pages[n]? = some page) :
    caps.StopsAt responses pages n ↔
      caps.endsWith (Position.start.tally.total (pages.take n)) page = true := by
  obtain ⟨hn, rfl⟩ := List.getElem?_eq_some_iff.mp h
  have hresponse : n < responses.length := read.length_eq ▸ hn
  have key := (List.forall₂_iff_get.mp read).2 n hresponse hn
  simp only [List.get_eq_getElem] at key
  have counts := Tally.total_eq Position.start.tally (pages.take (n + 1))
  rw [Tally.total_take_succ _ h] at counts
  rw [endsWith, Bool.or_eq_true, full_iff, counts, StopsAt, or_comm, key,
    List.getElem?_eq_getElem hresponse]
  simp [Position.start]

private theorem lastPage_eq_cut (caps : Caps) (earlier : List Page) (page : Page) :
    caps.lastPage earlier page = caps.cut (Position.start.tally.total earlier) page := by
  obtain ⟨_ | cap, scanned, batch⟩ := caps
  · rfl
  · simp [lastPage, cut, Tally.total_eq, Position.start, Page.truncate]

/-- The pages that are yielded when the counts stand at a tally, and whether the last one ends the
reading. -/
def sequence (caps : Caps) : Tally → List Page → List Page × Bool
  | _, [] => ([], false)
  | tally, page :: pages =>
    if caps.endsWith tally page then ([caps.cut tally page], true)
    else
      let later := caps.sequence (tally.plus page) pages
      (page :: later.1, later.2)

private theorem sequence_of_first_end (caps : Caps) (tally : Tally) {pages : List Page} {n : Nat} {page : Page}
    (h : pages[n]? = some page) (ends : caps.endsWith (tally.total (pages.take n)) page = true)
    (goesOn : ∀ i < n, ∀ earlier, pages[i]? = some earlier →
      caps.endsWith (tally.total (pages.take i)) earlier = false) :
    caps.sequence tally pages =
      (pages.take n ++ [caps.cut (tally.total (pages.take n)) page], true) := by
  induction pages generalizing tally n with
  | nil => simp at h
  | cons first pages ih =>
    cases n with
    | zero =>
      obtain rfl : first = page := by simpa using h
      exact if_pos ends
    | succ n =>
      have firstGoesOn : caps.endsWith tally first = false :=
        goesOn 0 (Nat.succ_pos n) first rfl
      have later := ih (tally.plus first) (by simpa using h) ends fun i hi earlier hearlier =>
        goesOn (i + 1) (Nat.succ_lt_succ hi) earlier (by simpa using hearlier)
      rw [sequence, firstGoesOn, later]
      rfl

private theorem sequence_of_no_end (caps : Caps) (tally : Tally) {pages : List Page}
    (goesOn : ∀ (i : Nat) earlier, pages[i]? = some earlier →
      caps.endsWith (tally.total (pages.take i)) earlier = false) :
    caps.sequence tally pages = (pages, false) := by
  induction pages generalizing tally with
  | nil => rfl
  | cons first pages ih =>
    have firstGoesOn : caps.endsWith tally first = false := goesOn 0 first rfl
    have later := ih (tally.plus first) fun i earlier hearlier =>
      goesOn (i + 1) earlier (by simpa using hearlier)
    rw [sequence, firstGoesOn, later]
    rfl

end Caps

namespace Reading

/-- Draining a reading that runs below its caps yields the sequence of the pages of the answers. -/
private theorem drain_running [DepthLimits] (reading : Reading) (request : Record) (retry : Retry) {position : Position}
    {responses : List Record} {pages : List Page}
    (read : List.Forall₂ (fun response page => Page.ofResponse response = .ok page) responses pages)
    (below : reading.caps.full position.tally = false) (fuel : Nat) (enough : responses.length < fuel) :
    let drain := drainWithin (reading.pullPage .ofScript) fuel
      (.running request (stagesAt reading.caps retry position)) (responses.map .ok)
    let sequence := reading.caps.sequence position.tally pages
    drain.taken = sequence.1 ∧
      drain.fault = (if sequence.2 then none else some (.unmet .scriptExhausted)) ∧
      drain.progress = .ended ∧ drain.state = (responses.drop sequence.1.length).map .ok := by
  induction read generalizing position fuel with
  | nil =>
    obtain ⟨fuel, rfl⟩ := Nat.exists_eq_succ_of_ne_zero (Nat.ne_of_gt enough)
    have exhausted : (Client.ofScript.service reading.operation).answer
        (requestAt reading.caps position request) [] = (.error (.unmet .scriptExhausted), []) := rfl
    have pulled := advance_of_fault retry below exhausted (by simp)
    rw [List.map_nil, drainWithin_of_error fuel pulled]
    exact ⟨rfl, rfl, rfl, rfl⟩
  | @cons response page responses pages hpage read ih =>
    obtain ⟨fuel, rfl⟩ := Nat.exists_eq_succ_of_ne_zero (Nat.ne_of_gt (Nat.zero_lt_of_lt enough))
    have answered : (Client.ofScript.service reading.operation).answer
        (requestAt reading.caps position request) ((response :: responses).map .ok) =
          (.ok page, responses.map .ok) := by
      rw [← hpage]
      rfl
    have pulled := advance_of_page retry below answered
    rw [drainWithin_of_some fuel pulled]
    cases ends : reading.caps.endsWith position.tally page with
    | true => simp [drainWithin_ended, Caps.sequence, ends]
    | false =>
      have unreached : reading.caps.full (position.past page).tally = false :=
        Caps.not_full_of_endsWith ends
      have later := ih unreached fuel (Nat.lt_of_succ_lt_succ enough)
      simp only [Caps.sequence, ends, Bool.false_eq_true, ↓reduceIte, Caps.cut_of_not_full unreached]
      exact ⟨congrArg (page :: ·) later.1, later.2⟩

/-- A reading yields one page for each answer, in order, up to the first at which it stops; only that page
can be cut. Where it stops at none, the reading ends with the client's fault. It never ends without a
page: a pull that yields nothing follows the end. -/
theorem one_page_per_response [DepthLimits] (reading : Reading) (valid : reading.Valid) (responses : List Record)
    (counted : ∀ response ∈ responses, Page.WellCounted response) :
    ∃ pages, responses.mapM Page.ofResponse = .ok pages ∧
      let script : List (Except Fault Record) := responses.map .ok
      let drain := reading.drainPages .ofScript .fresh script
      (∀ n page, pages[n]? = some page → reading.caps.StopsAt responses pages n →
        (∀ i < n, ¬ reading.caps.StopsAt responses pages i) →
          drain.taken = pages.take n ++ [reading.caps.lastPage (pages.take n) page] ∧
            drain.fault = none ∧ drain.progress = .ended ∧
            drain.state = (responses.drop (n + 1)).map .ok) ∧
      ((∀ n < pages.length, ¬ reading.caps.StopsAt responses pages n) →
          drain.taken = pages ∧ drain.fault = some (.unmet .scriptExhausted) ∧
            drain.progress = .ended ∧ drain.state = []) ∧
      ∀ pulls, let stand := reading.after .ofScript pulls .fresh script
        (reading.pullPage .ofScript stand.1 stand.2).outcome = .ok none → stand.1 = .ended := by
  obtain ⟨pages, both⟩ := forall₂_of_exists fun response member =>
    Page.ofResponse_of_wellCounted (counted response member)
  have read := both.imp fun _ _ h => h.1
  have keys := both.imp fun _ _ h => h.2
  obtain ⟨request, retry, -, below, opened⟩ := reading.opened .ofScript valid
  have drained := reading.drain_running request retry read below (responses.length + 2) (by omega)
  rw [← opened (responses.length + 1)] at drained
  have patience : (Client.ofScript).patience (responses.map .ok) = responses.length := by
    simp [Client.ofScript]
  refine ⟨pages, mapM_eq_ok.mpr read, ?_⟩
  dsimp only [drainPages]
  rw [patience]
  obtain ⟨taken, fault, progress, state⟩ := drained
  rw [taken, fault, progress, state]
  refine ⟨?_, ?_, ?_⟩
  · intro n page atPage stops goesOn
    have ends := (Caps.stopsAt_iff keys atPage).mp stops
    rw [Caps.sequence_of_first_end _ _ atPage ends ?_, Caps.lastPage_eq_cut]
    · have hn : n < pages.length := (List.getElem?_eq_some_iff.mp atPage).1
      simp [Nat.min_eq_left (Nat.le_of_lt hn)]
    · intro i hi earlier atEarlier
      exact Bool.eq_false_iff.mpr fun ends =>
        goesOn i hi ((Caps.stopsAt_iff keys atEarlier).mpr ends)
  · intro goesOn
    rw [Caps.sequence_of_no_end]
    · simp [read.length_eq]
    · intro i earlier atEarlier
      exact Bool.eq_false_iff.mpr fun ends =>
        goesOn i (List.getElem?_eq_some_iff.mp atEarlier).1
          ((Caps.stopsAt_iff keys atEarlier).mpr ends)
  · intro pulls
    have reached := reading.after_reached .ofScript valid pulls (responses.map .ok) .fresh
    exact (reading.pullPage_reached .ofScript valid _ reached).1

def scanForThree : Reading where
  operation := .scan
  table := { name := "events", hashKey := "id", rangeKey := none }
  options := [(.text "record_limit", .int 3)]
  policy := .constant (.int 0)
  maxRetries := .null

def answerOfTwo (first second : String) : Record :=
  [(.text "Items", .list [.text first, .text second]), (.text "Count", .int 2),
    (.text "LastEvaluatedKey", .map [(.text "id", .text second)])]

private theorem answerOfTwo_wellCounted (first second : String) :
    Page.WellCounted (answerOfTwo first second) :=
  ⟨fun _ => ⟨_, rfl⟩, .inr ⟨2, rfl⟩, .inl rfl⟩

/-- Of three answers with two items each, the second is cut to one item and the third is not asked for. -/
theorem one_page_per_response_second_cut :
    let responses := [answerOfTwo "a" "b", answerOfTwo "c" "d", answerOfTwo "e" "f"]
    let drain := scanForThree.drainPages .ofScript .fresh (responses.map .ok)
    scanForThree.Valid ∧ (∀ response ∈ responses, Page.WellCounted response) ∧
      drain.taken.map Page.items = [[.text "a", .text "b"], [.text "c"]] ∧
      drain.state = [.ok (answerOfTwo "e" "f")] := by
  intro responses drain
  have valid : scanForThree.Valid := ⟨⟨_, rfl⟩, ⟨_, rfl⟩⟩
  have counted : ∀ response ∈ responses, Page.WellCounted response := by
    simp only [responses, List.forall_mem_cons, answerOfTwo_wellCounted]
    simp
  obtain ⟨pages, read, stopping, -⟩ :=
    one_page_per_response scanForThree valid responses counted
  obtain rfl : _ = pages := Except.ok.inj read
  have stops := stopping 1 _ rfl (.inr (.inl ⟨3, rfl, by decide⟩)) (by
    intro i hi stops
    obtain rfl : i = 0 := Nat.lt_one_iff.mp hi
    rcases stops with ⟨response, hresponse, last⟩ | ⟨cap, hcap, reached⟩ | ⟨cap, hcap, -⟩
    · cases hresponse
      cases last
    · cases hcap
      revert reached
      decide
    · cases hcap)
  exact ⟨valid, counted, by rw [stops.1]; rfl, stops.2.2.2⟩

end Reading

end TableQuery
