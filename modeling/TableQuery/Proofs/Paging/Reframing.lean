/- Readings that are framed anew.

   The limits and the start key frame a reading. Where options agree but for these, their requests agree but
   for the two fields that carry them. -/

import TableQuery.Proofs.Paging.Opening
import TableQuery.Proofs.Request.Selection

set_option autoImplicit false
set_option relaxedAutoImplicit false

namespace TableQuery

namespace Record

/-- The entries of a record under other names than the given ones. -/
def without (names : List Text) (record : Record) : Record :=
  record.filter fun entry => !names.any fun name => entry.1.isText name

@[simp] theorem without_append (names : List Text) (front back : Record) :
    without names (front ++ back) = front.without names ++ back.without names :=
  List.filter_append front back

private theorem without_cons (names : List Text) (entry : Value × Value) (rest : Record) :
    without names (entry :: rest) = without names [entry] ++ without names rest :=
  without_append names [entry] rest

theorem NamedFrom.without_eq_nil {names : List Text} {record : Record} (named : NamedFrom names record) :
    record.without names = [] := by
  rw [without, List.filter_eq_nil_iff]
  intro entry member
  obtain ⟨name, hname, key⟩ := named entry member
  simp only [Bool.not_eq_true', Bool.not_eq_false, List.any_eq_true]
  exact ⟨name, hname, Value.isText_iff.mpr key⟩

theorem without_put {names : List Text} {name : Text} (h : name ∈ names) (record : Record) (value : Value) :
    (record.put name value).without names = record.without names := by
  have named : ∀ v, NamedFrom names [(Value.text name, v)] := fun v => by simp [NamedFrom, h]
  induction record with
  | nil => exact (named value).without_eq_nil
  | cons entry rest ih =>
    obtain ⟨key, old⟩ := entry
    rw [Record.put]
    split
    · rename_i here
      obtain rfl := Value.isText_iff.mp here
      rw [without_cons, without_cons names _ rest, (named value).without_eq_nil,
        (named old).without_eq_nil]
    · rw [without_cons, without_cons names _ rest, ih]

end Record

namespace Selection

/-- The options that say where a reading starts, and how far it goes. -/
def framing : List Text := ["limit", "record_limit", "scan_limit", "batch_size", "exclusive_start_key"]

/-- Selections of the same conditions, with the same options but for those that frame a reading. -/
structure Alike (selection other : Selection) : Prop where
  conditions : other.conditions = selection.conditions
  options : ∀ name, name ∉ framing → other.options.get name = selection.options.get name

end Selection

theorem Draft.ofOperation_alike {selection other : Selection} (alike : selection.Alike other)
    (operation : Operation) (table : Table) :
    ofOperation operation table other = ofOperation operation table selection := by
  have project := alike.options "project" (by simp [Selection.framing])
  cases operation with
  | query =>
    have hashValue := alike.options "hash_value" (by simp [Selection.framing])
    have hashKey := alike.options "hash_key" (by simp [Selection.framing])
    have rangeKey := alike.options "range_key" (by simp [Selection.framing])
    simp only [ofOperation, ofQuery, KeyConditions.ofSelection, alike.conditions, project, hashValue, hashKey,
      rangeKey]
  | scan => simp only [ofOperation, ofScan, alike.conditions, project]

namespace Request

/-- The fields of a request that say where a page starts, and how many records it may evaluate. -/
def paging : List Text := ["Limit", "ExclusiveStartKey"]

theorem passingEntries_alike {selection other : Selection} (alike : selection.Alike other) :
    passingEntries other.options = passingEntries selection.options := by
  have names : ∀ entry ∈ passing, entry.1 ∉ Selection.framing := by
    simp [passing, Selection.framing]
  refine List.filterMap_congr ?_
  intro entry member
  rw [alike.options entry.1 (names entry member)]

private theorem ofDraft_alike [DepthLimits] {table : Table} {selection other : Selection} {draft : Draft}
    {request : Record}
    (alike : selection.Alike other) (built : ofDraft table selection.options draft = .ok request)
    {size : Option Int} (sized : limit other.options = .ok size) {start : Option Record}
    (starts : StartKey.ofOption (other.options.get "exclusive_start_key") = .ok start) :
    ∃ reframed, ofDraft table other.options draft = .ok reframed ∧
      reframed.without paging = request.without paging := by
  obtain ⟨size₀, start₀, values, -, -, hvalues, rfl⟩ := ofDraft_eq_ok built
  refine ⟨(.text "TableName", .text table.name) :: limitEntry size ++ passingEntries other.options ++
    startEntry start ++ expressionEntries draft ++ values ++ nameEntry draft.tables.names, ?_, ?_⟩
  · unfold ofDraft
    rw [sized, starts, hvalues]
    rfl
  · have heads : ∀ size, Record.without paging ((.text "TableName", .text table.name) :: limitEntry size) =
        [(.text "TableName", .text table.name)] := by
      intro size
      cases size <;> rfl
    have keys : ∀ start, (startEntry start).without paging = [] := by
      intro start
      cases start <;> rfl
    simp only [passingEntries_alike alike, Record.without_append, heads, keys]

end Request

namespace Reading

/-- Readings of one table by one operation under the same conditions, with the same options but for those
that frame a reading. -/
structure Alike (reading other : Reading) : Prop where
  operation : other.operation = reading.operation
  table : other.table = reading.table
  selection : ∃ selection selection',
    Selection.ofRecord reading.operation.options reading.options = .ok selection ∧
    Selection.ofRecord other.operation.options other.options = .ok selection' ∧
    selection.Alike selection'

theorem Alike.refl [DepthLimits] {reading : Reading} {request : Record} (built : reading.request = .ok request) :
    reading.Alike reading := by
  obtain ⟨selection, -, selects, -⟩ := request_eq_ok built
  exact ⟨rfl, rfl, selection, selection, selects, selects, rfl, fun _ _ => rfl⟩

theorem alike_of_frame {reading : Reading} {entries frame : List (Text × Value)}
    (given : reading.options = Record.ofTexts entries)
    (apart : ((entries ++ frame).map Prod.fst).Nodup)
    (frames : ∀ entry ∈ frame, entry.1 ∈ Selection.framing) :
    reading.Alike { reading with options := Record.ofTexts (entries ++ frame) } := by
  have allowed : ∀ entry ∈ frame, entry.1 ∈ reading.operation.options := by
    have among : ∀ operation : Operation, Selection.framing ⊆ operation.options := by
      intro operation
      cases operation <;> simp [Selection.framing, Operation.options, Operation.queryOptions,
        Operation.scanOptions]
    exact fun entry member => among _ (frames entry member)
  have alone : (entries.map Prod.fst).Nodup := by
    rw [List.map_append] at apart
    exact (List.nodup_append.mp apart).1
  refine ⟨rfl, rfl, _, _, by rw [given]; exact Selection.ofRecord_ofTexts _ alone,
    Selection.ofRecord_ofTexts _ apart, ?_, ?_⟩
  · have none_stray : frame.filter (fun entry => entry.1 ∉ reading.operation.options) = [] := by
      simpa [List.filter_eq_nil_iff] using allowed
    simp only [Selection.ofTexts, List.filter_append, none_stray, List.append_nil]
  · intro name other
    have named : Record.NamedFrom Selection.framing
        (Record.ofTexts (frame.filter fun entry => entry.1 ∈ reading.operation.options)) := by
      intro entry member
      obtain ⟨pair, kept, rfl⟩ := List.mem_map.mp member
      exact ⟨pair.1, frames pair (List.mem_filter.mp kept).1, rfl⟩
    simp only [Selection.ofTexts, List.filter_append, Record.ofTexts_append, Record.get, Record.get?_append,
      named.get?_eq_none other, Option.or_none]

theorem start_of_request [DepthLimits] {reading : Reading} {request : Record} (built : reading.request = .ok request) :
    ∃ start, StartKey.ofOption (reading.selected.get "exclusive_start_key") = .ok start := by
  obtain ⟨_, _, -, -, written⟩ := request_eq_ok built
  obtain ⟨start, hstart, -⟩ := Request.get?_startKey written
  exact ⟨start, hstart⟩

private theorem limit_of_stages {reading : Reading} {stages : List Stage} (h : reading.stages = .ok stages) :
    ∃ size, Request.limit reading.selected = .ok size := by
  obtain ⟨selection, hselection, h⟩ := bind_eq_ok.mp h
  obtain ⟨records, hrecords, h⟩ := bind_eq_ok.mp h
  obtain ⟨scanned, hscanned, h⟩ := bind_eq_ok.mp h
  obtain ⟨batch, hbatch, -⟩ := bind_eq_ok.mp h
  refine ⟨Limits.pageSize [records, scanned, batch], ?_⟩
  rw [selected_eq hselection, Request.limit, hrecords]
  change (Limits.scanned selection.options >>= _) = _
  rw [hscanned]
  change (Limits.batch selection.options >>= _) = _
  rw [hbatch]
  rfl

theorem Alike.request [DepthLimits] {reading other : Reading} (alike : reading.Alike other) {request : Record}
    (built : reading.request = .ok request) {stages : List Stage} (staged : other.stages = .ok stages)
    {start : Option Record}
    (starts : StartKey.ofOption (other.selected.get "exclusive_start_key") = .ok start) :
    ∃ reframed, other.request = .ok reframed ∧
      reframed.without Request.paging = request.without Request.paging := by
  obtain ⟨selection, draft, hselection, hdraft, hrequest⟩ := request_eq_ok built
  obtain ⟨_, selection', hselection', selects, same⟩ := alike.selection
  obtain rfl := Except.ok.inj (hselection.symm.trans hselection')
  obtain ⟨size, sized⟩ := limit_of_stages staged
  rw [selected_eq hselection] at hrequest
  rw [selected_eq selects] at starts sized
  obtain ⟨reframed, made, without⟩ := Request.ofDraft_alike same hrequest sized starts
  have drafts : Draft.ofOperation other.operation other.table selection' = .ok draft := by
    rw [Draft.ofOperation_alike same, alike.operation, alike.table, hdraft]
  exact ⟨reframed, by rw [request_of_draft selects drafts, alike.table, made], without⟩

end Reading

end TableQuery
