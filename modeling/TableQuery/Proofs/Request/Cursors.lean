/- Requests that start at a cursor.

   A cursor comes from outside, so it may be any text. It is read as a key, or its content is at fault, or the JSON
   text in it is nested too deeply. A request sends the key as it is read, and refuses a cursor whose content is at
   fault. -/

import TableQuery.Proofs.Cursor.Reissuing
import TableQuery.Proofs.Paging.Reframing
import TableQuery.Proofs.Request.Refusing

set_option autoImplicit false
set_option relaxedAutoImplicit false

namespace TableQuery

/-- A map from distinct texts to key attributes, at least one: each is a map of one entry with a text under `S` or
`N`, or with octets of the fixed kind under `B`. -/
structure Record.IsStartKey (record : Record) : Prop where
  filled : record ≠ []
  apart : (record.map Prod.fst).Nodup
  named : ∀ entry ∈ record, ∃ name : Text, entry.1 = .text name
  single : ∀ entry ∈ record, (∃ t : Text, entry.2 = .map [(.text "S", .text t)]) ∨
    (∃ numeral : Text, entry.2 = .map [(.text "N", .text numeral)]) ∨
    ∃ data : Octets, entry.2 = .map [(.text "B", .octets false data)]

private theorem Key.toRecord_isStartKey {key : Key} (filled : key ≠ []) (apart : (key.map Prod.fst).Nodup) :
    key.toRecord.IsStartKey where
  filled := by simpa [Key.toRecord] using filled
  apart := by
    rw [key.toRecord_heldBy.keys]
    exact apart.map fun _ _ same => Value.text.inj same
  named := by
    intro entry member
    obtain ⟨part, -, rfl⟩ := List.mem_map.mp member
    exact ⟨part.1, rfl⟩
  single := by
    intro entry member
    obtain ⟨⟨name, part⟩, -, rfl⟩ := List.mem_map.mp member
    cases part with
    | text t => exact .inl ⟨t, rfl⟩
    | number numeral => exact .inr (.inl ⟨numeral, rfl⟩)
    | octets data => exact .inr (.inr ⟨data, rfl⟩)

private theorem Record.without_of_absent {record : Record} {name : Text} (absent : record.get? name = none) :
    record.without [name] = record := by
  induction record with
  | nil => rfl
  | cons entry rest ih =>
    obtain ⟨key, value⟩ := entry
    rw [get?_cons] at absent
    split at absent
    · cases absent
    next other =>
      rw [without, List.filter_cons_of_pos (by simpa using other)]
      exact congrArg _ (ih absent)

namespace Cursor

/-- The content of a cursor is a JSON text that is nested too deeply. -/
def IsTooDeep [DepthLimits] (s : Text) : Prop := ∃ t, content s.strip = .ok t ∧ Json.read t = .error .tooDeep

private theorem not_isTooDeep_of_blank [DepthLimits] {s : Text} (blank : s.strip = []) : ¬ IsTooDeep s := by
  rintro ⟨t, given, deep⟩
  rw [blank] at given
  obtain rfl : [] = t := Except.ok.inj given
  cases deep

private theorem decode_of_tooDeep [DepthLimits] {s : Text} (deep : IsTooDeep s) :
    decode (.text s) = .error .tooDeep := by
  have present : ¬ (s.strip.isEmpty = true) := by
    rw [List.isEmpty_iff]
    exact fun blank => not_isTooDeep_of_blank blank deep
  obtain ⟨t, given, read⟩ := deep
  rw [decode_text, decodeText, if_neg present, given]
  change keyOfJson t = _
  rw [keyOfJson, read]

private theorem decode_error [DepthLimits] {s : Text} {fault : Fault} (failed : decode (.text s) = .error fault) :
    fault.isContentFault = true ∨ (fault = .tooDeep ∧ IsTooDeep s) := by
  by_cases deep : IsTooDeep s
  · rw [decode_of_tooDeep deep] at failed
    exact .inr ⟨(Except.error.inj failed).symm, deep⟩
  · refine .inl (decodeText_failsOnly ?_ fault (decode_text s ▸ failed))
    exact fun t given read => deep ⟨t, given, read⟩

/-- Cursors of opening brackets alone, three for each step. -/
def brackets (count : Nat) : Text := (List.replicate count (Text.ofString "W1tb")).flatten

private theorem encodeBare_brackets (count : Nat) :
    Base64.encodeBare .urlSafe (List.replicate (3 * count) 0x5B) = brackets count := by
  induction count with
  | zero => rfl
  | succ count ih =>
    have quantum : List.replicate (3 * (count + 1)) (0x5B : UInt8) =
        0x5B :: 0x5B :: 0x5B :: List.replicate (3 * count) 0x5B := rfl
    rw [quantum, Base64.encodeBare, ih]
    rfl

private theorem encode_brackets (count : Nat) :
    Utf8.encode (List.replicate count (.char '[')) = some (List.replicate count 0x5B) := by
  induction count with
  | zero => rfl
  | succ count ih =>
    rw [List.replicate_succ, Utf8.encode, ih]
    rfl

private theorem decode_brackets [DepthLimits] {count : Nat} (deep : DepthLimits.readable < 3 * count) :
    decode (.text (brackets count)) = .error .tooDeep := by
  have filled : List.replicate (3 * count) (0x5B : UInt8) ≠ [] := by
    rw [Ne, List.replicate_eq_nil_iff]
    omega
  rw [decode_text, ← encodeBare_brackets, decodeText_encodeBare (encode_brackets _) filled, keyOfJson,
    Json.read_of_brackets deep]

end Cursor

private theorem StartKey.ofOption_of_decode [DepthLimits] {s : Text} {key : Key}
    (read : Cursor.decode (.text s) = .ok key) :
    ofOption (.text s) = .ok (some key.toRecord) := by
  rw [Cursor.decode_text] at read
  rw [ofOption, read]

private theorem StartKey.ofOption_of_fault [DepthLimits] {s : Text} {fault : Fault}
    (failed : Cursor.decode (.text s) = .error fault) :
    ofOption (.text s) =
      if fault.isContentFault then .error (.refused .cursorUnreadable) else .error fault := by
  rw [Cursor.decode_text] at failed
  rw [ofOption, failed]

namespace Request

/-- The request of a draft with the given page limit, start key and literals. -/
def assembled (table : Table) (options : Record) (draft : Draft) (size : Option Int) (values : Record)
    (start : Option Record) : Record :=
  (.text "TableName", .text table.name) :: limitEntry size ++ passingEntries options ++ startEntry start ++
    expressionEntries draft ++ values ++ nameEntry draft.tables.names

private theorem ofDraft_of_parts [DepthLimits] {table : Table} {options : Record} {draft : Draft} {size : Option Int}
    {values : Record} (sized : limit options = .ok size) (valued : valueEntry draft.tables.values = .ok values) :
    ofDraft table options draft =
      (StartKey.ofOption (options.get "exclusive_start_key")).map (assembled table options draft size values) := by
  unfold ofDraft
  rw [sized, valued]
  cases StartKey.ofOption (options.get "exclusive_start_key") with
  | error fault => rfl
  | ok start => cases start <;> rfl

section Started

variable {selection other : Selection} {value : Value}
  (inserted : Selection.Inserted "exclusive_start_key" value selection other)

include inserted

private theorem limit_inserted : limit other.options = limit selection.options := by
  have same : ∀ name : Text, name ≠ "exclusive_start_key" →
      Limits.positive? other.options name = Limits.positive? selection.options name := fun name different => by
    rw [Limits.positive?, Limits.positive?, inserted.options name different]
  rw [limit, limit, Limits.records, Limits.records, Limits.scanned, Limits.scanned, Limits.batch, Limits.batch,
    same "record_limit" (by simp), same "limit" (by simp), same "scan_limit" (by simp), same "batch_size" (by simp)]

private theorem alike_inserted : selection.Alike other where
  conditions := inserted.conditions
  options name outside := by
    refine inserted.options name ?_
    rintro rfl
    exact outside (by simp [Selection.framing])

end Started

/-- A start key that is given among valid options is the one difference that it makes, if it can be read. -/
private theorem build_inserted [DepthLimits] {operation : Operation} {table : Table} {before after plain : Record}
    (value : Value) (once : ∀ entry ∈ before ++ after, entry.1.plain? ≠ some (Text.ofString "exclusive_start_key"))
    (valid : build operation table (.map (before ++ after)) = .ok plain) :
    ∃ front back, plain = front ++ back ∧ plain.get? "ExclusiveStartKey" = none ∧
      build operation table (.map (before ++ (.text "exclusive_start_key", value) :: after)) =
        (StartKey.ofOption value).map fun start => front ++ startEntry start ++ back := by
  have ofMap : ∀ record : Record, Selection.ofValue operation.options (.map record) =
      Selection.ofRecord operation.options record := fun record => by cases record <;> rfl
  have option : Text.ofString "exclusive_start_key" ∈ operation.options := by
    cases operation <;> simp [Operation.options, Operation.queryOptions, Operation.scanOptions]
  obtain ⟨selection, draft, selected, drafted, written⟩ := build_eq_ok valid
  obtain ⟨start₀, starts₀, unstarted⟩ := get?_startKey written
  obtain ⟨size, start, values, sized, starts, valued, rfl⟩ := ofDraft_eq_ok written
  rw [ofMap] at selected
  obtain ⟨other, selected', inserted⟩ := Selection.ofRecord_inserted option once value selected
  rw [inserted.absent] at starts starts₀
  obtain rfl : none = start := Except.ok.inj starts
  obtain rfl : none = start₀ := Except.ok.inj starts₀
  have alike := alike_inserted inserted
  have drafted' : Draft.ofOperation operation table other = .ok draft := by
    rw [Draft.ofOperation_alike alike, drafted]
  have sized' : limit other.options = .ok size := by rw [limit_inserted inserted, sized]
  refine ⟨(.text "TableName", .text table.name) :: limitEntry size ++ passingEntries selection.options,
    expressionEntries draft ++ values ++ nameEntry draft.tables.names, ?_, unstarted, ?_⟩
  · simp [startEntry]
  · rw [build_of_draft ((ofMap _).trans selected') drafted', ofDraft_of_parts sized' valued, inserted.given]
    congr 1
    funext start
    simp [assembled, passingEntries_alike alike]

/-- **Any cursor text is handled, unless it is nested too deeply.** Let a cursor be given among options that are
valid without it. Either the cursor is read as a map from texts to single entries, and the request sends exactly this
map as its start key and is otherwise the same; or its content is at fault, and the options are refused; or the JSON
text in it is nested too deeply, and both the reading and the building end with that fault. -/
theorem build_handles_cursor [DepthLimits] {operation : Operation} {table : Table} {before after plain : Record}
    (s : Text) (once : ∀ entry ∈ before ++ after, entry.1.plain? ≠ some (Text.ofString "exclusive_start_key"))
    (valid : build operation table (.map (before ++ after)) = .ok plain) :
    let built := build operation table (.map (before ++ (.text "exclusive_start_key", .text s) :: after))
    (∃ key sent, Cursor.decode (.text s) = .ok key ∧ key.toRecord.IsStartKey ∧ built = .ok sent ∧
      sent.get? "ExclusiveStartKey" = some (.map key.toRecord) ∧ sent.without ["ExclusiveStartKey"] = plain) ∨
    (∃ fault, Cursor.decode (.text s) = .error fault ∧ fault.isContentFault = true ∧
      built = .error (.refused .cursorUnreadable)) ∨
    (Cursor.IsTooDeep s ∧ Cursor.decode (.text s) = .error .tooDeep ∧ built = .error .tooDeep) := by
  intro built
  obtain ⟨front, back, rfl, unstarted, given⟩ := build_inserted (.text s) once valid
  cases outcome : Cursor.decode (.text s) with
  | ok key =>
    obtain ⟨filled, apart⟩ := Cursor.decode_apart outcome
    refine .inl ⟨key, front ++ startEntry (some key.toRecord) ++ back, rfl, Key.toRecord_isStartKey filled apart,
      ?_, ?_, ?_⟩
    · refine given.trans ?_
      rw [StartKey.ofOption_of_decode outcome]
      rfl
    · rw [Record.get?_append, Option.or_eq_none_iff] at unstarted
      rw [List.append_assoc, Record.get?_append, unstarted.1, Record.get?_append, startEntry, Record.get?_cons]
      simp
    · rw [Record.without_append, Record.without_append, (startEntry_named _).without_eq_nil, List.append_nil,
        ← Record.without_append, Record.without_of_absent unstarted]
  | error fault =>
    refine .inr ?_
    rcases Cursor.decode_error outcome with content | ⟨rfl, deep⟩
    · refine .inl ⟨fault, rfl, content, given.trans ?_⟩
      rw [StartKey.ofOption_of_fault outcome, if_pos content]
      rfl
    · refine .inr ⟨deep, rfl, given.trans ?_⟩
      rw [StartKey.ofOption_of_fault outcome]
      rfl

/-- A scan with a limit and a filter that starts at the cursor of a text key. -/
theorem build_handles_cursor_of_textKey :
    let table : Table := ⟨"users", "id", none⟩
    let condition : Value × Value := (.text "status", .map [(.text "eq", .text "open")])
    (∃ plain, build .scan table (.map [(.text "limit", .int 5), condition]) = .ok plain) ∧
      ∃ sent, build .scan table (.map [(.text "limit", .int 5),
          (.text "exclusive_start_key", .text "eyJpZCI6eyJTIjoiNDIifX0"), condition]) = .ok sent ∧
        sent.get? "ExclusiveStartKey" = some (.map [(.text "id", .map [(.text "S", .text "42")])]) := by
  intro table condition
  obtain ⟨plain, valid⟩ := exists_of_isOk (by decide +kernel :
    (build .scan table (.map ([(.text "limit", .int 5)] ++ [condition]))).isOk = true)
  have once : ∀ entry ∈ [((.text "limit", .int 5) : Value × Value)] ++ [condition],
      entry.1.plain? ≠ some (Text.ofString "exclusive_start_key") := by decide
  have read := eq_ok_of_toOption (by decide +kernel :
    (Cursor.decode (.text "eyJpZCI6eyJTIjoiNDIifX0")).toOption = some ([("id", .text "42")] : Key))
  refine ⟨⟨plain, valid⟩, ?_⟩
  rcases build_handles_cursor "eyJpZCI6eyJTIjoiNDIifX0" once valid with
    ⟨key, sent, given, -, built, sends, -⟩ | ⟨fault, failed, -⟩ | ⟨-, failed, -⟩
  · obtain rfl := Except.ok.inj (read.symm.trans given)
    exact ⟨sent, built, sends⟩
  · cases read.symm.trans failed
  · cases read.symm.trans failed

/-- Twelve thousand opening brackets in a cursor are neither read nor refused. -/
theorem brackets_not_handled :
    Cursor.decode (.text (Cursor.brackets 4000)) = .error .tooDeep ∧
      build .scan ⟨"users", "id", none⟩ (.map [(.text "exclusive_start_key", .text (Cursor.brackets 4000))]) =
        .error .tooDeep ∧
      Fault.tooDeep.isContentFault = false ∧ ¬ Fault.tooDeep.IsRefusal := by
  have deep : Cursor.decode (.text (Cursor.brackets 4000)) = .error .tooDeep := Cursor.decode_brackets (by decide)
  have valid : build .scan ⟨"users", "id", none⟩ (.map ([] ++ [])) = .ok [(.text "TableName", .text "users")] := rfl
  obtain ⟨front, back, -, -, given⟩ := build_inserted (.text (Cursor.brackets 4000)) (List.forall_mem_nil _) valid
  refine ⟨deep, given.trans ?_, rfl, ?_⟩
  · rw [StartKey.ofOption_of_fault deep]
    rfl
  · rintro ⟨why, refused⟩
    cases refused

end Request

end TableQuery
