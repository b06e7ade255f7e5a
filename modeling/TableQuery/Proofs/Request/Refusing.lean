/- Options that cannot be used are refused.

   Building a request either succeeds or refuses the options, if its literals fit the wire, what is asked for
   as text can be printed, and nothing is nested too deeply. Where these conditions fail, other faults end the
   building. -/

import Mathlib.Algebra.Group.Int.Defs
import TableQuery.Proofs.Expression.Refusing
import TableQuery.Proofs.Request.Selection
import TableQuery.Request.Build

set_option autoImplicit false
set_option relaxedAutoImplicit false

namespace TableQuery

namespace Draft

/-- Conditions and a projection that fit are compiled to a draft whose literals fit, or refused. -/
private theorem compile_refuses [DepthLimits] {keyConditions filter : Record} {project : Value}
    (onKeys : Condition.Fit keyConditions) (onOthers : Condition.Fit filter)
    (projected : Projection.Fit project) :
    FailsOnly Fault.IsRefusal (compile keyConditions filter project) ∧
      ∀ draft, compile keyConditions filter project = .ok draft → draft.tables.Fit := by
  have whole : Compiling.Refuses (parts keyConditions filter project) :=
    Compiling.refuses_bind (Condition.refuses_compileRecord onKeys _) fun _ =>
    Compiling.refuses_bind (Condition.refuses_compileRecord onOthers _) fun _ =>
    Compiling.refuses_bind (Projection.refuses_compile projected) fun _ => Compiling.refuses_pure _
  obtain ⟨fails, keeps⟩ := whole .fresh (fun literal member => absurd member List.not_mem_nil)
  unfold compile
  generalize (parts keyConditions filter project).runOn .fresh = run at fails keeps
  obtain ⟨fault | clauses, tables⟩ := run
  · exact ⟨.error (fails fault rfl), fun draft h => nomatch h⟩
  · refine ⟨.ok _, ?_⟩
    rintro draft ⟨⟩
    exact keeps

end Draft

namespace KeyConditions

def hashKeyOf (table : Table) (selection : Selection) : Value :=
  firstPresent (selection.options.get "hash_key") (.text table.hashKey)

def rangeKeyOf (table : Table) (selection : Selection) : Value :=
  firstPresent (selection.options.get "range_key")
    (match table.rangeKey with
      | some name => .text name
      | none => .null)

/-- Keys of a query whose faults are refused: what names them can be a key and can be printed, and what they are
compared with fits. -/
structure Fit [DepthLimits] (table : Table) (selection : Selection) : Prop where
  hashKey : (hashKeyOf table selection).isKey = true ∧ (hashKeyOf table selection).Printable
  rangeKey : (rangeKeyOf table selection).isKey = true ∧ (rangeKeyOf table selection).Printable
  hashValue : (selection.options.get "hash_value").FitsRoom
  ranges : ∀ condition ∈ selection.conditions, ∀ operator, rangeOperator? condition.1 = some operator →
    Demand.OperandsFit (Demand.operandsOf operator condition.2)

variable {table : Table} {selection : Selection}

private theorem asKey_eq_ok {v key : Value} (h : asKey v = .ok key) : v = key := by
  unfold asKey at h
  split at h
  · exact Except.ok.inj h
  · cases h

private theorem asKey_of_isKey {v : Value} (h : v.isKey = true) : asKey v = .ok v := if_pos h

private theorem ofSelection_refuses [DepthLimits] (fit : Fit table selection) :
    FailsOnly Fault.IsRefusal (ofSelection table selection) := by
  unfold ofSelection
  dsimp only
  generalize named : firstPresent (selection.options.get "range_key") _ = rangeKey
  obtain rfl : rangeKeyOf table selection = rangeKey := named
  -- The two keys are compared before the range key is asked whether it can be one.
  split
  · exact .refused .hashValueMissing
  refine FailsOnly.bind ?_ fun hashKey asked => ?_
  · exact asKey_of_isKey fit.hashKey.1 ▸ .ok _
  obtain rfl : hashKeyOf table selection = hashKey := asKey_eq_ok asked
  split
  · exact .ok _
  split
  · exact .refused .rangeKeyMissing
  refine FailsOnly.bind ?_ fun same _ => ?_
  · obtain ⟨same, compared⟩ := Value.same_eq_ok (rangeKeyOf table selection) (hashKeyOf table selection)
      fit.rangeKey.1 fit.hashKey.1
    have compared : equal (rangeKeyOf table selection) (hashKeyOf table selection) = .ok same := by
      rw [equal, compared]
    exact compared ▸ .ok same
  split
  · exact .refused .rangeKeyIsHashKey
  refine FailsOnly.bind ?_ fun rangeKey _ => .ok _
  exact asKey_of_isKey fit.rangeKey.1 ▸ .ok _

private theorem ofSelection_forms {conditions : Record} (h : ofSelection table selection = .ok conditions) :
    ∀ condition ∈ conditions,
      condition = (hashKeyOf table selection, .map [(.text "eq", selection.options.get "hash_value")]) ∨
        condition = (rangeKeyOf table selection, .map (range selection.conditions)) := by
  unfold ofSelection at h
  dsimp only at h
  generalize named : firstPresent (selection.options.get "range_key") _ = rangeKey at h
  obtain rfl : rangeKeyOf table selection = rangeKey := named
  split at h
  · cases h
  obtain ⟨hashKey, asked, h⟩ := bind_eq_ok.mp h
  obtain rfl : hashKeyOf table selection = hashKey := asKey_eq_ok asked
  split at h
  · obtain rfl := pure_eq_ok.mp h
    exact List.forall_mem_singleton.mpr (.inl rfl)
  split at h
  · cases h
  obtain ⟨same, -, h⟩ := bind_eq_ok.mp h
  split at h
  · cases h
  obtain ⟨rangeKey, asked, h⟩ := bind_eq_ok.mp h
  obtain rfl : rangeKeyOf table selection = rangeKey := asKey_eq_ok asked
  obtain rfl := pure_eq_ok.mp h
  exact List.forall_mem_cons.mpr ⟨.inl rfl, List.forall_mem_singleton.mpr (.inr rfl)⟩

private theorem mem_range {conditions : Record} {entry : Value × Value} (member : entry ∈ range conditions) :
    ∃ condition ∈ conditions, ∃ operator, rangeOperator? condition.1 = some operator ∧
      entry = (.text operator, condition.2) := by
  obtain ⟨condition, among, found⟩ := List.mem_filterMap.mp member
  obtain ⟨operator, known, rfl⟩ := Option.map_eq_some_iff.mp found
  exact ⟨condition, among, operator, known, rfl⟩

private theorem fit_of_ofSelection [DepthLimits] (fit : Fit table selection) {conditions : Record}
    (h : ofSelection table selection = .ok conditions) : Condition.Fit conditions := by
  have forms := ofSelection_forms h
  constructor
  · intro condition member
    rcases forms condition member with rfl | rfl
    · exact fit.hashKey.2
    · exact fit.rangeKey.2
  · intro condition member operators body entry among
    rcases forms condition member with rfl | rfl
    · obtain rfl := Value.map.inj body
      obtain rfl := List.mem_singleton.mp among
      refine ⟨.text _, ?_⟩
      rintro _ ⟨⟩
      exact ⟨(by decide : 1 ≤ Condition.countLimit), List.forall_mem_singleton.mpr fit.hashValue⟩
    · obtain rfl := Value.map.inj body
      obtain ⟨condition, present, _, known, rfl⟩ := mem_range among
      refine ⟨.text _, ?_⟩
      rintro _ ⟨⟩
      exact fit.ranges condition present _ known

end KeyConditions

namespace Selection

/-- All conditions of a selection have texts as names. -/
def Named (selection : Selection) : Prop :=
  ∀ condition ∈ selection.conditions, ∃ name, condition.1 = .text name

private theorem named_put {record : Record} (named : ∀ entry ∈ record, ∃ name, entry.1 = .text name)
    (name : Text) (value : Value) : ∀ entry ∈ record.put name value, ∃ name, entry.1 = .text name := by
  induction record with
  | nil => exact List.forall_mem_singleton.mpr ⟨name, rfl⟩
  | cons entry rest ih =>
    obtain ⟨first, others⟩ := List.forall_mem_cons.mp named
    rw [Record.put]
    split
    · exact List.forall_mem_cons.mpr ⟨first, others⟩
    · exact List.forall_mem_cons.mpr ⟨first, ih others⟩

/-- Entries whose keys have plain forms are taken apart, and the conditions among them have texts as names. -/
private theorem ofRecord_of_printable (allowed : List Text) {record : Record}
    (printable : ∀ entry ∈ record, entry.1.plain?.isSome = true) :
    ∃ selection, ofRecord allowed record = .ok selection ∧ selection.Named := by
  have further : ∀ start : Selection, start.Named → ∃ selection,
      record.foldlM (addEntry allowed) start = .ok selection ∧ selection.Named := by
    induction record with
    | nil => exact fun start named => ⟨start, rfl, named⟩
    | cons entry rest ih =>
      intro start named
      obtain ⟨first, others⟩ := List.forall_mem_cons.mp printable
      obtain ⟨name, plain⟩ := Value.plain_of_isSome first
      rw [List.foldlM_cons, addEntry, plain]
      refine ih others (start.add allowed name entry.2) ?_
      unfold add
      split
      · exact named
      · exact named_put named name entry.2
  exact further ⟨[], []⟩ fun condition member => absurd member List.not_mem_nil

end Selection

namespace KeyAttribute

private theorem ofJson_failsOnly (given : Json) :
    FailsOnly (fun fault => fault.isContentFault = true) (ofJson given) := by
  unfold ofJson
  split
  · split
    · exact .ok _
    · split
      · exact .ok _
      · split
        · refine FailsOnly.map ?_ _
          unfold octetsOfText
          split
          · exact .error rfl
          · split
            · exact .ok _
            · exact .error rfl
        · exact .error rfl
  · exact .error rfl
  · exact .error rfl

end KeyAttribute

namespace Cursor

theorem decodeText_failsOnly [DepthLimits] {cursor : Text}
    (shallow : ∀ content, Cursor.content cursor.strip = .ok content → Json.read content ≠ .error .tooDeep) :
    FailsOnly (fun fault => fault.isContentFault = true) (decodeText cursor) := by
  unfold decodeText
  dsimp only
  split
  · exact .error rfl
  refine FailsOnly.bind ?_ fun content given => ?_
  · unfold Cursor.content
    split
    · exact .error rfl
    · split
      · exact .error rfl
      · split
        · exact .error rfl
        · exact .ok _
  · have reads := shallow content given
    unfold keyOfJson
    split
    · exact .error rfl
    · exact .error rfl
    · exact absurd ‹_› reads
    · exact .mapM fun entry _ => (KeyAttribute.ofJson_failsOnly entry.2).map _
    · exact .error rfl

end Cursor

private theorem StartKey.ofOption_refuses [DepthLimits] {given : Value}
    (shallow : ∀ cursor content, given = .text cursor → Cursor.content cursor.strip = .ok content →
      Json.read content ≠ .error .tooDeep) :
    FailsOnly Fault.IsRefusal (ofOption given) := by
  unfold ofOption
  split
  · exact .ok none
  · rename_i cursor
    have fails : FailsOnly (fun fault => fault.isContentFault = true) (Cursor.decodeText cursor) :=
      Cursor.decodeText_failsOnly fun content => shallow cursor content rfl
    split
    · exact .ok _
    · rename_i fault failed
      rw [if_pos (fails fault failed)]
      exact .refused _
  · exact .ok none
  · exact .ok _
  · exact .refused _

namespace Limits

private theorem positive?_refuses (options : Record) (name : Text) :
    FailsOnly Fault.IsRefusal (positive? options name) := by
  unfold positive?
  split
  · exact .ok none
  · split
    · exact .ok _
    · exact .refused _
  · exact .refused _

private theorem records_refuses (options : Record) : FailsOnly Fault.IsRefusal (records options) := by
  refine (positive?_refuses options _).bind fun given _ => ?_
  cases given with
  | some n => exact .ok _
  | none => exact positive?_refuses options _

end Limits

/-- Options and conditions whose faults are refused. -/
structure Selection.Fit [DepthLimits] (operation : Operation) (table : Table) (selection : Selection) : Prop where
  keys : operation = .query → KeyConditions.Fit table selection
  filter : ∀ condition ∈ KeyConditions.rest selection.conditions, Condition.BodyFit condition.2
  projection : Projection.Fit (selection.options.get "project")
  cursor : ∀ cursor content, selection.options.get "exclusive_start_key" = .text cursor →
    Cursor.content cursor.strip = .ok content → Json.read content ≠ .error .tooDeep

namespace Draft

variable {table : Table} {selection : Selection}

private theorem filter_fit [DepthLimits] {operation : Operation} (named : selection.Named)
    (fit : selection.Fit operation table) :
    Condition.Fit (KeyConditions.rest selection.conditions) where
  names := by
    intro condition member
    obtain ⟨name, h⟩ := named condition (List.mem_filter.mp member).1
    exact h ▸ .text name
  bodies := fit.filter

private theorem ofQuery_refuses [DepthLimits] (named : selection.Named) (fit : selection.Fit .query table) :
    FailsOnly Fault.IsRefusal (ofQuery table selection) ∧
      ∀ draft, ofQuery table selection = .ok draft → draft.tables.Fit := by
  have keys := fit.keys rfl
  have compiled (conditions : Record) (given : KeyConditions.ofSelection table selection = .ok conditions) :=
    compile_refuses (KeyConditions.fit_of_ofSelection keys given) (filter_fit named fit) fit.projection
  constructor
  · refine (KeyConditions.ofSelection_refuses keys).bind ?_
    intro conditions given
    exact (compiled conditions given).1
  · intro draft h
    obtain ⟨conditions, given, h⟩ := bind_eq_ok.mp h
    exact (compiled conditions given).2 draft h

private theorem rest_of_no_range {conditions : Record}
    (named : ∀ condition ∈ conditions, ∃ name, condition.1 = .text name)
    (none_stray : conditions.filterMap (fun entry =>
      match entry.1 with
      | .text name => if (KeyConditions.rangeOperator? entry.1).isSome then some name else none
      | _ => none) = []) : KeyConditions.rest conditions = conditions := by
  refine List.filter_eq_self.mpr ?_
  intro condition member
  have kept := List.filterMap_eq_nil_iff.mp none_stray condition member
  obtain ⟨name, h⟩ := named condition member
  rw [h] at kept ⊢
  cases known : KeyConditions.rangeOperator? (.text name) with
  | none => rfl
  | some operator =>
    rw [known] at kept
    cases kept

private theorem ofScan_refuses [DepthLimits] (named : selection.Named) (fit : selection.Fit .scan table) :
    FailsOnly Fault.IsRefusal (ofScan selection) ∧
      ∀ draft, ofScan selection = .ok draft → draft.tables.Fit := by
  unfold ofScan
  dsimp only
  split
  · rename_i none_stray
    have all := rest_of_no_range named (List.isEmpty_iff.mp none_stray)
    have conditions := filter_fit named fit
    rw [all] at conditions
    have empty : Condition.Fit [] :=
      ⟨fun _ member => absurd member List.not_mem_nil, fun _ member => absurd member List.not_mem_nil⟩
    exact compile_refuses empty conditions fit.projection
  · exact ⟨.refused _, fun draft h => nomatch h⟩

end Draft

namespace Request

private theorem valueEntry_refuses [DepthLimits] {table : ValueTable}
    (fit : ∀ literal ∈ table.values, literal.FitsRoom) :
    FailsOnly Fault.IsRefusal (valueEntry table) := by
  unfold valueEntry
  split
  · exact .ok []
  refine FailsOnly.bind (.mapM ?_) fun _ _ => .ok _
  intro entry member
  obtain ⟨⟨literal, index⟩, among, rfl⟩ := List.mem_map.mp member
  obtain ⟨fits, room⟩ := fit literal (List.fst_mem_of_mem_zipIdx among)
  have refuses : FailsOnly Fault.IsRefusal (Attribute.ofLiteralWithin (some DepthLimits.writable) literal) := by
    rw [Attribute.ofLiteralWithin_of_nesting literal room]
    exact Attribute.ofLiteral_refuses literal fits
  exact refuses.bind fun _ _ => .ok _

private theorem ofDraft_refuses [DepthLimits] {table : Table} {options : Record} {draft : Draft}
    (fit : draft.tables.Fit)
    (shallow : ∀ cursor content, options.get "exclusive_start_key" = .text cursor →
      Cursor.content cursor.strip = .ok content → Json.read content ≠ .error .tooDeep) :
    FailsOnly Fault.IsRefusal (ofDraft table options draft) := by
  have limits : FailsOnly Fault.IsRefusal (limit options) :=
    (Limits.records_refuses options).bind fun _ _ =>
    (Limits.positive?_refuses options "scan_limit").bind fun _ _ =>
    (Limits.positive?_refuses options "batch_size").bind fun _ _ => .ok _
  refine limits.bind fun _ _ => ?_
  refine (StartKey.ofOption_refuses shallow).bind fun _ _ => ?_
  exact (valueEntry_refuses fit).bind fun _ _ => .ok _

/-- **Refusing.** Building a request of any table from options succeeds or refuses them, if all keys can be printed
and what the options are taken apart into fits. -/
theorem build_refuses [DepthLimits] (operation : Operation) (table : Table) (options : Record)
    (printable : ∀ entry ∈ options, entry.1.Printable)
    (fit : ∀ selection, Selection.ofRecord operation.options options = .ok selection →
      selection.Fit operation table) :
    (∃ request, build operation table (.map options) = .ok request) ∨
      ∃ why, build operation table (.map options) = .error (.refused why) := by
  obtain ⟨selection, taken, named⟩ := Selection.ofRecord_of_printable operation.options
    fun entry member => (printable entry member).plain
  have parts := fit selection taken
  have read : Selection.ofValue operation.options (.map options) = .ok selection := by
    cases options with
    | nil => exact taken
    | cons entry rest => exact taken
  have whole : FailsOnly Fault.IsRefusal (build operation table (.map options)) := by
    unfold build
    rw [read]
    cases operation with
    | query =>
      obtain ⟨fails, fits⟩ := Draft.ofQuery_refuses named parts
      exact fails.bind fun draft drafted => ofDraft_refuses (fits draft drafted) parts.cursor
    | scan =>
      obtain ⟨fails, fits⟩ := Draft.ofScan_refuses named parts
      exact fails.bind fun draft drafted => ofDraft_refuses (fits draft drafted) parts.cursor
  cases built : build operation table (.map options) with
  | ok request => exact .inl ⟨request, rfl⟩
  | error fault =>
    obtain ⟨why, rfl⟩ := whole fault built
    exact .inr ⟨why, rfl⟩

/-- A scan with a number of 38 digits, an object that has no wire form, and a projection: every literal fits,
and the object is refused. -/
theorem build_refuses_of_object :
    let options : Record :=
      [(.text "n", .map [(.text "between", .list [.int 0, .int (10 ^ 37)])]),
        (.text "m", .map [(.text "eq", .object "x")]), (.text "project", .list [.text "n", .int 7])]
    (∀ request, build .scan ⟨"users", "id", none⟩ (.map options) ≠ .ok request) ∧
      ∃ why, build .scan ⟨"users", "id", none⟩ (.map options) = .error (.refused why) := by
  intro options
  have fit : ∀ selection, Selection.ofRecord Operation.scan.options options = .ok selection →
      selection.Fit .scan ⟨"users", "id", none⟩ := by
    intro selection taken
    obtain rfl : (⟨options.drop 2, options.take 2⟩ : Selection) = selection := Except.ok.inj taken
    have filter : KeyConditions.rest (options.take 2) = options.take 2 := rfl
    constructor
    · exact fun query => nomatch query
    · rw [filter]
      refine List.forall_mem_cons.mpr ⟨?_, List.forall_mem_singleton.mpr ?_⟩
      · rintro _ ⟨⟩
        refine List.forall_mem_singleton.mpr ⟨.text _, ?_⟩
        rintro _ ⟨⟩
        refine ⟨by decide, List.forall_mem_cons.mpr ⟨⟨by decide, by decide⟩, ?_⟩⟩
        exact List.forall_mem_singleton.mpr ⟨by decide, by decide⟩
      · rintro _ ⟨⟩
        refine List.forall_mem_singleton.mpr ⟨.text _, ?_⟩
        rintro _ ⟨⟩
        exact ⟨by decide, List.forall_mem_singleton.mpr ⟨by decide, by decide⟩⟩
    · refine fun _ => ⟨_, rfl, List.forall_mem_cons.mpr ⟨.text _, ?_⟩⟩
      exact List.forall_mem_singleton.mpr ⟨by decide, by decide⟩
    · exact fun cursor content given => nomatch given
  have printable : ∀ entry ∈ options, entry.1.Printable := by
    refine List.forall_mem_cons.mpr ⟨.text _, List.forall_mem_cons.mpr ⟨.text _, ?_⟩⟩
    exact List.forall_mem_singleton.mpr (.text _)
  have refuses := build_refuses .scan ⟨"users", "id", none⟩ options printable fit
  have no_request : ∀ request, build .scan ⟨"users", "id", none⟩ (.map options) ≠ .ok request :=
    fun request built => nomatch built
  exact ⟨no_request, refuses.resolve_left fun ⟨request, built⟩ => no_request request built⟩

/-- An option that is neither accepted nor refused: a literal of forty digits that are not all zeros after the
first 38 is not rounded, and the signal of that is no refusal. -/
theorem build_signals_of_forty_digits :
    ∃ table, Table.make "users" "id" none = .ok table ∧ ∃ options : Record,
      build .scan table (.map options) = .error (.signal .inexact) ∧
        ¬ ((∃ request, build .scan table (.map options) = .ok request) ∨
          ∃ why, build .scan table (.map options) = .error (.refused why)) := by
  have signals : build .scan ⟨"users", "id", none⟩
      (.map [(.text "n", .map [(.text "eq", .int 1000000000000000000000000000000000000001)])]) =
        .error (.signal .inexact) := rfl
  refine ⟨_, rfl, _, signals, ?_⟩
  rw [signals]
  rintro (⟨request, h⟩ | ⟨why, h⟩) <;> cases h

end Request

end TableQuery
