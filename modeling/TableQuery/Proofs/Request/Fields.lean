/- The fields of a request that is built from a draft. -/

import TableQuery.Proofs.Expression.Tokens
import TableQuery.Proofs.Outcomes
import TableQuery.Proofs.Records
import TableQuery.Request.Build

set_option autoImplicit false
set_option relaxedAutoImplicit false

namespace TableQuery

def Draft.ofOperation (operation : Operation) (table : Table) (selection : Selection) :
    Except Fault Draft :=
  match operation with
  | .query => ofQuery table selection
  | .scan => ofScan selection

namespace Request

/-- A request is built from a selection of its options and from the draft of that selection. -/
theorem build_eq_ok [DepthLimits] {operation : Operation} {table : Table} {options : Value} {request : Record}
    (h : build operation table options = .ok request) :
    ∃ selection draft, Selection.ofValue operation.options options = .ok selection ∧
      Draft.ofOperation operation table selection = .ok draft ∧
      ofDraft table selection.options draft = .ok request := by
  obtain ⟨selection, selected, h⟩ := bind_eq_ok.mp h
  cases operation <;>
  · obtain ⟨draft, drafted, h⟩ := bind_eq_ok.mp h
    exact ⟨selection, draft, selected, drafted, h⟩

theorem build_of_draft [DepthLimits] {operation : Operation} {table : Table} {options : Value} {selection : Selection}
    {draft : Draft} (selected : Selection.ofValue operation.options options = .ok selection)
    (drafted : Draft.ofOperation operation table selection = .ok draft) :
    build operation table options = ofDraft table selection.options draft := by
  unfold build
  rw [selected]
  cases operation with
  | query =>
    change (Draft.ofQuery table selection >>= _) = _
    rw [show Draft.ofQuery table selection = .ok draft from drafted]
    rfl
  | scan =>
    change (Draft.ofScan selection >>= _) = _
    rw [show Draft.ofScan selection = .ok draft from drafted]
    rfl

def limitEntry (limit : Option Int) : Record :=
  match limit with
  | some n => [(.text "Limit", .int n)]
  | none => []

def startEntry (start : Option Record) : Record :=
  match start with
  | some key => [(.text "ExclusiveStartKey", .map key)]
  | none => []

def expressionEntries (draft : Draft) : Record :=
  draft.expressions.map fun entry => (.text entry.1, .text entry.2)

theorem ofDraft_eq_ok [DepthLimits] {table : Table} {options : Record} {draft : Draft} {request : Record}
    (h : ofDraft table options draft = .ok request) :
    ∃ size start values, limit options = .ok size ∧
      StartKey.ofOption (options.get "exclusive_start_key") = .ok start ∧
      valueEntry draft.tables.values = .ok values ∧
      request = (.text "TableName", .text table.name) :: limitEntry size ++ passingEntries options ++
        startEntry start ++ expressionEntries draft ++ values ++ nameEntry draft.tables.names := by
  obtain ⟨size, hsize, h⟩ := bind_eq_ok.mp h
  obtain ⟨start, hstart, h⟩ := bind_eq_ok.mp h
  obtain ⟨values, hvalues, h⟩ := bind_eq_ok.mp h
  exact ⟨size, start, values, hsize, hstart, hvalues, (pure_eq_ok.mp h).symm⟩

open Record

private theorem limitEntry_named (limit : Option Int) : NamedFrom ["Limit"] (limitEntry limit) := by
  cases limit <;> simp [limitEntry, NamedFrom]

theorem startEntry_named (start : Option Record) :
    NamedFrom ["ExclusiveStartKey"] (startEntry start) := by
  cases start <;> simp [startEntry, NamedFrom]

private theorem passingEntries_named (options : Record) :
    NamedFrom (passing.map (·.2)) (passingEntries options) := by
  intro entry member
  obtain ⟨names, inPassing, h⟩ := List.mem_filterMap.mp member
  refine ⟨names.2, List.mem_map_of_mem inPassing, ?_⟩
  cases null : (options.get names.1).isNull <;> simp [null] at h
  rw [← h]

private theorem expressionEntries_named (draft : Draft) :
    NamedFrom ["KeyConditionExpression", "FilterExpression", "ProjectionExpression"]
      (expressionEntries draft) := by
  intro entry member
  obtain ⟨pair, kept, rfl⟩ := List.mem_map.mp member
  have listed := (List.mem_filter.mp kept).1
  refine ⟨pair.1, ?_, rfl⟩
  simp only [List.mem_cons, List.not_mem_nil, or_false] at listed ⊢
  rcases listed with rfl | rfl | rfl <;> simp

private theorem valueEntry_named [DepthLimits] {table : ValueTable} {values : Record}
    (h : valueEntry table = .ok values) :
    NamedFrom ["ExpressionAttributeValues"] values := by
  unfold valueEntry at h
  split at h
  · obtain rfl := pure_eq_ok.mp h
    simp [NamedFrom]
  · obtain ⟨written, -, h⟩ := bind_eq_ok.mp h
    obtain rfl := pure_eq_ok.mp h
    simp [NamedFrom]

private theorem nameEntry_named (table : NameTable) :
    NamedFrom ["ExpressionAttributeNames"] (nameEntry table) := by
  unfold nameEntry
  split <;> simp [NamedFrom]

private theorem head_named (table : Table) :
    NamedFrom ["TableName"] [(.text "TableName", .text table.name)] := by
  simp [NamedFrom]

private theorem get?_filter_text (all : List (Text × Text)) (apart : (all.map Prod.fst).Nodup)
    {field t : Text} (member : (field, t) ∈ all) :
    Record.get? ((all.filter fun entry => !entry.2.isEmpty).map fun entry =>
      (Value.text entry.1, Value.text entry.2)) field = if t = [] then none else some (.text t) := by
  have apart' : ((all.filter fun entry => !entry.2.isEmpty).map Prod.fst).Nodup :=
    apart.sublist (List.filter_sublist.map _)
  rw [get?_map_text]
  cases found : ((all.filter fun entry => !entry.2.isEmpty).find? fun entry => entry.1 = field).map (·.2) with
  | none =>
    have absent : (field, t) ∉ all.filter fun entry => !entry.2.isEmpty := by
      rw [← find?_eq_some_iff_mem apart', found]
      exact nofun
    rw [List.mem_filter, not_and] at absent
    rw [if_pos (by simpa using absent member)]
    rfl
  | some other =>
    obtain ⟨here, filled⟩ := List.mem_filter.mp ((find?_eq_some_iff_mem apart').mp found)
    obtain rfl : other = t := by
      rw [← find?_eq_some_iff_mem apart] at here member
      exact Option.some.inj (here.symm.trans member)
    rw [if_neg (by simpa using filled)]
    rfl

section Fields

variable [DepthLimits] {table : Table} {options : Record} {draft : Draft} {request : Record}

theorem get?_limit (h : ofDraft table options draft = .ok request) :
    ∃ size, limit options = .ok size ∧ request.get? "Limit" = size.map .int := by
  obtain ⟨size, start, values, hsize, -, hvalues, rfl⟩ := ofDraft_eq_ok h
  refine ⟨size, hsize, ?_⟩
  have between := get?_between (limitEntry size) "Limit" (head_named table)
    ((((passingEntries_named options).append (startEntry_named start)).append
      (expressionEntries_named draft)).append (valueEntry_named hvalues) |>.append
      (nameEntry_named draft.tables.names)) (by simp [passing])
  simp only [List.cons_append, List.nil_append, List.append_assoc] at between ⊢
  rw [between]
  cases size <;> simp [limitEntry, get?_cons]

theorem get?_startKey (h : ofDraft table options draft = .ok request) :
    ∃ start, StartKey.ofOption (options.get "exclusive_start_key") = .ok start ∧
      request.get? "ExclusiveStartKey" = start.map .map := by
  obtain ⟨size, start, values, -, hstart, hvalues, rfl⟩ := ofDraft_eq_ok h
  refine ⟨start, hstart, ?_⟩
  have between := get?_between (startEntry start) "ExclusiveStartKey"
    (((head_named table).append (limitEntry_named size)).append (passingEntries_named options))
    (((expressionEntries_named draft).append (valueEntry_named hvalues)).append
      (nameEntry_named draft.tables.names)) (by simp [passing])
  simp only [List.cons_append, List.nil_append, List.append_assoc] at between ⊢
  rw [between]
  cases start <;> simp [startEntry, get?_cons]

def wireExpressions (draft : Draft) : List (Text × Text) :=
  [("KeyConditionExpression", Clause.renderAll draft.keyCondition),
    ("FilterExpression", Clause.renderAll draft.filter),
    ("ProjectionExpression", Projection.render draft.projection)]

theorem get?_expression (h : ofDraft table options draft = .ok request) {field t : Text}
    (member : (field, t) ∈ wireExpressions draft) :
    request.get? field = if t = [] then none else some (.text t) := by
  obtain ⟨size, start, values, -, -, hvalues, rfl⟩ := ofDraft_eq_ok h
  have among : field ∈ [Text.ofString "KeyConditionExpression", Text.ofString "FilterExpression",
      Text.ofString "ProjectionExpression"] := List.mem_map_of_mem (f := Prod.fst) member
  have elsewhere : ∀ name ∈ [Text.ofString "KeyConditionExpression", Text.ofString "FilterExpression",
      Text.ofString "ProjectionExpression"],
      name ∉ (([Text.ofString "TableName"] ++ [Text.ofString "Limit"] ++ passing.map (·.2)) ++
        [Text.ofString "ExclusiveStartKey"]) ++
        ([Text.ofString "ExpressionAttributeValues"] ++ [Text.ofString "ExpressionAttributeNames"]) := by
    simp [passing]
  have between := get?_between (expressionEntries draft) field
    ((((head_named table).append (limitEntry_named size)).append (passingEntries_named options)).append
      (startEntry_named start))
    ((valueEntry_named hvalues).append (nameEntry_named draft.tables.names)) (elsewhere field among)
  simp only [List.cons_append, List.nil_append, List.append_assoc] at between ⊢
  rw [between]
  have apart : [Text.ofString "KeyConditionExpression", Text.ofString "FilterExpression",
      Text.ofString "ProjectionExpression"].Nodup := by simp
  exact get?_filter_text (wireExpressions draft) apart member

theorem get?_values (h : ofDraft table options draft = .ok request) :
    ∃ values, valueEntry draft.tables.values = .ok values ∧
      request.get? "ExpressionAttributeValues" = values.get? "ExpressionAttributeValues" := by
  obtain ⟨size, start, values, -, -, hvalues, rfl⟩ := ofDraft_eq_ok h
  refine ⟨values, hvalues, ?_⟩
  have between := get?_between values "ExpressionAttributeValues"
    (((((head_named table).append (limitEntry_named size)).append (passingEntries_named options)).append
      (startEntry_named start)).append (expressionEntries_named draft))
    (nameEntry_named draft.tables.names) (by simp [passing])
  simp only [List.cons_append, List.nil_append, List.append_assoc] at between ⊢
  exact between

theorem get?_names (h : ofDraft table options draft = .ok request) :
    request.get? "ExpressionAttributeNames" =
      (nameEntry draft.tables.names).get? "ExpressionAttributeNames" := by
  obtain ⟨size, start, values, -, -, hvalues, rfl⟩ := ofDraft_eq_ok h
  have nothing : NamedFrom [] [] := by simp [NamedFrom]
  have between := get?_between (nameEntry draft.tables.names) "ExpressionAttributeNames"
    ((((((head_named table).append (limitEntry_named size)).append (passingEntries_named options)).append
      (startEntry_named start)).append (expressionEntries_named draft)).append
      (valueEntry_named hvalues)) nothing (by simp [passing])
  simp only [List.cons_append, List.nil_append, List.append_assoc, List.append_nil] at between ⊢
  exact between

end Fields

end Request

end TableQuery
