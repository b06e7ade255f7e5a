/- How a reading opens.

   A reading is valid when its first request and its stages can be built. Then its caps are the positive
   whole numbers that the options give, its stages stand before the first page, and its request holds the
   start key of the options. -/

import TableQuery.Proofs.Outcomes
import TableQuery.Proofs.Paging.Step
import TableQuery.Proofs.Request.Fields

set_option autoImplicit false
set_option relaxedAutoImplicit false

namespace TableQuery

namespace Limits

def whole? (options : Record) (name : Text) : Option Int :=
  match options.get name with
  | .int n => some n
  | _ => none

theorem positive?_eq_ok {options : Record} {name : Text} {cap : Option Int}
    (h : positive? options name = .ok cap) :
    cap = whole? options name ∧ ∀ n, cap = some n → 0 < n := by
  unfold positive? at h
  unfold whole?
  split at h
  · cases h
    simp_all
  · rename_i n given
    split at h
    · rename_i positive
      cases h
      simp_all
    · cases h
  · cases h

theorem records_eq_ok {options : Record} {cap : Option Int} (h : records options = .ok cap) :
    cap = (whole? options "record_limit").or (whole? options "limit") ∧
      ∀ n, cap = some n → 0 < n := by
  obtain ⟨first, hfirst, h⟩ := bind_eq_ok.mp h
  obtain ⟨rfl, positive⟩ := positive?_eq_ok hfirst
  cases hwhole : whole? options "record_limit" with
  | some n =>
    rw [hwhole] at h positive
    obtain rfl := pure_eq_ok.mp h
    exact ⟨rfl, positive⟩
  | none =>
    rw [hwhole] at h
    exact positive?_eq_ok h

end Limits

def Caps.ofOptions (options : Record) : Caps where
  records := (Limits.whole? options "record_limit").or (Limits.whole? options "limit")
  scanned := Limits.whole? options "scan_limit"
  batch := Limits.whole? options "batch_size"

/-- A cap admits at least one record. -/
structure Caps.Positive (caps : Caps) : Prop where
  records : ∀ n, caps.records = some n → 0 < n
  scanned : ∀ n, caps.scanned = some n → 0 < n
  batch : ∀ n, caps.batch = some n → 0 < n

theorem Caps.Positive.not_full {caps : Caps} (positive : caps.Positive) :
    caps.full Position.start.tally = false := by
  have below : ∀ cap : Option Int, (∀ n, cap = some n → 0 < n) → Caps.reached cap 0 = false := by
    rintro (_ | n) h
    · rfl
    · simpa [Caps.reached] using h n rfl
  rw [Caps.full, Bool.or_eq_false_iff]
  exact ⟨below _ positive.records, below _ positive.scanned⟩

namespace Reading

def selected (reading : Reading) : Record :=
  match Selection.ofRecord reading.operation.options reading.options with
  | .ok selection => selection.options
  | .error _ => []

def caps (reading : Reading) : Caps := .ofOptions reading.selected

/-- The key that a reading starts after: the one that a cursor or a map in its options stands for. -/
def startKey [DepthLimits] (reading : Reading) : Value :=
  match StartKey.ofOption (reading.selected.get "exclusive_start_key") with
  | .ok (some key) => .map key
  | _ => .null

/-- A reading is valid when its request and its stages can be built. -/
structure Valid [DepthLimits] (reading : Reading) : Prop where
  request : ∃ request, reading.request = .ok request
  stages : ∃ stages, reading.stages = .ok stages

theorem selected_eq {reading : Reading} {selection : Selection}
    (h : Selection.ofRecord reading.operation.options reading.options = .ok selection) :
    reading.selected = selection.options := by
  rw [selected, h]

theorem stages_eq_ok {reading : Reading} {stages : List Stage} (h : reading.stages = .ok stages) :
    reading.caps.Positive ∧ ∃ retry,
      Retry.make reading.policy reading.maxRetries reading.operation.name = .ok retry ∧
      stages = stagesAt reading.caps retry .start := by
  obtain ⟨selection, hselection, h⟩ := bind_eq_ok.mp h
  obtain ⟨records, hrecords, h⟩ := bind_eq_ok.mp h
  obtain ⟨scanned, hscanned, h⟩ := bind_eq_ok.mp h
  obtain ⟨batch, hbatch, h⟩ := bind_eq_ok.mp h
  obtain ⟨retry, made, h⟩ := bind_eq_ok.mp h
  obtain rfl := pure_eq_ok.mp h
  have selected : reading.selected = selection.options := selected_eq hselection
  obtain ⟨hrecords, recordsPositive⟩ := Limits.records_eq_ok hrecords
  obtain ⟨hscanned, scannedPositive⟩ := Limits.positive?_eq_ok hscanned
  obtain ⟨hbatch, batchPositive⟩ := Limits.positive?_eq_ok hbatch
  have caps : reading.caps = ⟨records, scanned, batch⟩ := by
    rw [Reading.caps, Caps.ofOptions, selected, hrecords, hscanned, hbatch]
  rw [caps]
  exact ⟨⟨recordsPositive, scannedPositive, batchPositive⟩, retry, made, rfl⟩

theorem Valid.stages_eq [DepthLimits] {reading : Reading} (valid : reading.Valid) :
    reading.caps.Positive ∧
      ∃ retry, reading.stages = .ok (stagesAt reading.caps retry .start) := by
  obtain ⟨stages, hstages⟩ := valid.stages
  obtain ⟨positive, retry, -, rfl⟩ := stages_eq_ok hstages
  exact ⟨positive, retry, hstages⟩

theorem request_eq_ok [DepthLimits] {reading : Reading} {request : Record} (h : reading.request = .ok request) :
    ∃ selection draft, Selection.ofRecord reading.operation.options reading.options = .ok selection ∧
      Draft.ofOperation reading.operation reading.table selection = .ok draft ∧
      Request.ofDraft reading.table reading.selected draft = .ok request := by
  obtain ⟨selection, draft, hselection, hdraft, h⟩ := Request.build_eq_ok h
  have selects : Selection.ofRecord reading.operation.options reading.options = .ok selection := by
    unfold Selection.ofValue at hselection
    split at hselection
    · rename_i absent
      have empty : reading.options = [] := by simpa [Value.isTruthy] using absent
      rw [empty]
      exact hselection
    · exact hselection
  exact ⟨selection, draft, selects, hdraft, by rw [selected_eq selects]; exact h⟩

theorem request_of_draft [DepthLimits] {reading : Reading} {selection : Selection} {draft : Draft}
    (selects : Selection.ofRecord reading.operation.options reading.options = .ok selection)
    (drafts : Draft.ofOperation reading.operation reading.table selection = .ok draft) :
    reading.request = Request.ofDraft reading.table selection.options draft := by
  refine Request.build_of_draft ?_ drafts
  cases given : reading.options with
  | nil =>
    rw [given] at selects
    exact selects
  | cons entry rest =>
    rw [given] at selects
    exact selects

theorem Valid.request_eq [DepthLimits] {reading : Reading} (valid : reading.Valid) :
    ∃ request, reading.request = .ok request ∧
      request.get "ExclusiveStartKey" = reading.startKey := by
  obtain ⟨request, built⟩ := valid.request
  obtain ⟨-, draft, -, -, h⟩ := request_eq_ok built
  obtain ⟨start, hstart, hget⟩ := Request.get?_startKey h
  refine ⟨request, built, ?_⟩
  rw [Record.get, hget, startKey, hstart]
  cases start <;> rfl

end Reading

end TableQuery
