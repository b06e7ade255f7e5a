/- Conditions on the keys of a table.

   A query names one value of the hash key. Conditions on the range key have names of their own, each of
   which stands for an operator. -/

import TableQuery.Request.Options

set_option autoImplicit false
set_option relaxedAutoImplicit false

namespace TableQuery.KeyConditions

def rangeOperators : List (Text × Text) :=
  [("range_greater_than", "gt"), ("range_less_than", "lt"), ("range_gte", "gte"),
    ("range_lte", "lte"), ("range_begins_with", "begins_with"), ("range_between", "between"),
    ("range_eq", "eq")]

/-- The operator that a key stands for when it names a range condition. -/
def rangeOperator? (key : Value) : Option Text :=
  (rangeOperators.find? fun entry => key.isText entry.1).map (·.2)

def rest (conditions : Record) : Record :=
  conditions.filter fun entry => (rangeOperator? entry.1).isNone

def range (conditions : Record) : Record :=
  conditions.filterMap fun entry =>
    (rangeOperator? entry.1).map fun operator => (.text operator, entry.2)

/-- The first of two values that counts as present. -/
def firstPresent (v fallback : Value) : Value := if v.isTruthy then v else fallback

def asKey (v : Value) : Except Fault Value := if v.isKey then .ok v else .error .wrongKind

/-- Whether two values are equal, where the comparison can fail. -/
def equal (a b : Value) : Except Fault Bool :=
  match a.same b with
  | .ok b => .ok b
  | .error condition => .error (.signal condition)

def ofSelection (table : Table) (selection : Selection) : Except Fault Record := do
  let hashValue := selection.options.get "hash_value"
  if hashValue.isNull then throw (.refused .hashValueMissing)
  let hashKey ← asKey (firstPresent (selection.options.get "hash_key") (.text table.hashKey))
  let hashCondition := (hashKey, Value.map [(.text "eq", hashValue)])
  match range selection.conditions with
  | [] => return [hashCondition]
  | rangeConditions =>
    let tableRange : Value := match table.rangeKey with
      | some name => .text name
      | none => .null
    let rangeKey := firstPresent (selection.options.get "range_key") tableRange
    if !rangeKey.isTruthy then throw (.refused .rangeKeyMissing)
    if ← equal rangeKey hashKey then throw (.refused .rangeKeyIsHashKey)
    return [hashCondition, (← asKey rangeKey, .map rangeConditions)]

end TableQuery.KeyConditions
