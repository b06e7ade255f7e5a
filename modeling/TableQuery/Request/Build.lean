/- Building requests.

   The conditions and the projection of a request are compiled over one pair of tables. The draft that
   results is written as a record together with the limit, the options that pass through unchanged, the
   start key and the two tables. -/

import TableQuery.Attribute.Encoding
import TableQuery.Depth
import TableQuery.Expression.Compile
import TableQuery.Request.KeyConditions
import TableQuery.Request.StartKey

set_option autoImplicit false
set_option relaxedAutoImplicit false

namespace TableQuery

/-- The compiled conditions and projection of a request, with the tables of their tokens. -/
structure Draft where
  keyCondition : List Clause
  filter : List Clause
  projection : List Text
  tables : Tables
  deriving Repr

namespace Draft

/-- Compiles key conditions, then a filter, then a projection. -/
def parts (keyConditions filter : Record) (project : Value) :
    Compiling (List Clause × List Clause × List Text) := do
  let keyCondition ← Condition.compileRecord Operator.keyNames keyConditions
  let filter ← Condition.compileRecord Operator.filterNames filter
  let projection ← Projection.compile project
  return (keyCondition, filter, projection)

def compile (keyConditions filter : Record) (project : Value) : Except Fault Draft := do
  let (outcome, tables) := (parts keyConditions filter project).runOn .fresh
  let (keyCondition, filter, projection) ← outcome
  return { keyCondition, filter, projection, tables }

def ofQuery (table : Table) (selection : Selection) : Except Fault Draft := do
  let keyConditions ← KeyConditions.ofSelection table selection
  compile keyConditions (KeyConditions.rest selection.conditions) (selection.options.get "project")

/-- The draft of a scan, which has no conditions on keys. -/
def ofScan (selection : Selection) : Except Fault Draft :=
  let stray := selection.conditions.filterMap fun entry =>
    match entry.1 with
    | .text name => if (KeyConditions.rangeOperator? entry.1).isSome then some name else none
    | _ => none
  if stray.isEmpty then compile [] selection.conditions (selection.options.get "project")
  else .error (.refused (.rangeConditionsOnScan (Text.sortBy id stray)))

/-- The expressions of a request under their names on the wire; those without content are left out. -/
def expressions (draft : Draft) : List (Text × Text) :=
  let all : List (Text × Text) :=
    [("KeyConditionExpression", Clause.renderAll draft.keyCondition),
      ("FilterExpression", Clause.renderAll draft.filter),
      ("ProjectionExpression", Projection.render draft.projection)]
  all.filter fun entry => !entry.2.isEmpty

end Draft

namespace Request

/-- The options that pass into a request unchanged, with their names on the wire. -/
def passing : List (Text × Text) :=
  [("consistent_read", "ConsistentRead"), ("scan_index_forward", "ScanIndexForward"),
    ("select", "Select"), ("index_name", "IndexName"),
    ("return_consumed_capacity", "ReturnConsumedCapacity")]

def passingEntries (options : Record) : Record :=
  passing.filterMap fun entry =>
    let value := options.get entry.1
    if value.isNull then none else some (.text entry.2, value)

def limit (options : Record) : Except Fault (Option Int) := do
  let records ← Limits.records options
  let scanned ← Limits.scanned options
  let batch ← Limits.batch options
  return Limits.pageSize [records, scanned, batch]

def nameEntry (table : NameTable) : Record :=
  if table.names.isEmpty then []
  else [(.text "ExpressionAttributeNames", .map (table.entries.map fun entry =>
    (.text entry.1, .text entry.2)))]

variable [DepthLimits]

def valueEntry (table : ValueTable) : Except Fault Record := do
  if table.values.isEmpty then return []
  let written ← table.entries.mapM fun entry => do
    let item ← Attribute.ofLiteralWithin (some DepthLimits.writable) entry.2
    return (Value.text entry.1, item.toValue)
  return [(.text "ExpressionAttributeValues", .map written)]

def ofDraft (table : Table) (options : Record) (draft : Draft) : Except Fault Record := do
  let limitEntry : Record := match ← limit options with
    | some n => [(.text "Limit", .int n)]
    | none => []
  let startEntry : Record :=
    match ← StartKey.ofOption (options.get "exclusive_start_key") with
    | some key => [(.text "ExclusiveStartKey", .map key)]
    | none => []
  let values ← valueEntry draft.tables.values
  return (.text "TableName", .text table.name) :: limitEntry ++ passingEntries options ++ startEntry ++
    draft.expressions.map (fun entry => (.text entry.1, .text entry.2)) ++ values ++
    nameEntry draft.tables.names

/-- The request of an operation on a table with the given options. -/
def build (operation : Operation) (table : Table) (options : Value) : Except Fault Record := do
  let selection ← Selection.ofValue operation.options options
  let draft ← match operation with
    | .query => Draft.ofQuery table selection
    | .scan => Draft.ofScan selection
  ofDraft table selection.options draft

end Request

end TableQuery
