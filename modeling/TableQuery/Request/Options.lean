/- Options of a query or a scan.

   Options and conditions are given in one record: a key that names an option is one, and every other key
   is a condition. The three limits are positive whole numbers. -/

import TableQuery.Value.Conversion

set_option autoImplicit false
set_option relaxedAutoImplicit false

namespace TableQuery

/-- A table with a hash key and perhaps a range key. -/
structure Table where
  name : Text
  hashKey : Text
  rangeKey : Option Text
  deriving DecidableEq, Repr

namespace Table

def make (name hashKey : Text) (rangeKey : Option Text) : Except Fault Table :=
  if name.isEmpty then .error (.refused .tableUnnamed)
  else if hashKey.isEmpty then .error (.refused .hashKeyUnnamed)
  else .ok { name, hashKey, rangeKey }

end Table

/-- The two ways to read a table. -/
inductive Operation where
  | query
  | scan
  deriving DecidableEq, Repr

namespace Operation

def name : Operation → Text
  | .query => "query"
  | .scan => "scan"

def queryOptions : List Text :=
  ["limit", "hash_key", "hash_value", "range_key", "consistent_read", "scan_index_forward", "select",
    "index_name", "batch_size", "exclusive_start_key", "record_limit", "scan_limit", "project",
    "return_consumed_capacity"]

def scanOptions : List Text :=
  ["limit", "consistent_read", "select", "index_name", "batch_size", "exclusive_start_key",
    "record_limit", "scan_limit", "project", "return_consumed_capacity"]

def options : Operation → List Text
  | .query => queryOptions
  | .scan => scanOptions

end Operation

/-- A record taken apart into options and conditions. -/
structure Selection where
  options : Record
  conditions : Record
  deriving Repr, Inhabited

namespace Selection

def add (allowed : List Text) (selection : Selection) (name : Text) (value : Value) : Selection :=
  if name ∈ allowed then { selection with options := selection.options.put name value }
  else { selection with conditions := selection.conditions.put name value }

def ofRecord (allowed : List Text) (record : Record) : Except Fault Selection :=
  record.foldlM (fun selection entry => do
    let name ← entry.1.plain
    return selection.add allowed name entry.2) ⟨[], []⟩

def ofValue (allowed : List Text) (options : Value) : Except Fault Selection :=
  if !options.isTruthy then .ok ⟨[], []⟩ else do ofRecord allowed (← options.entries)

end Selection

namespace Limits

/-- The positive whole number under the given name, if the option is set. -/
def positive? (options : Record) (name : Text) : Except Fault (Option Int) :=
  match options.get name with
  | .null => .ok none
  | .int n => if 0 < n then .ok (some n) else .error (.refused (.notPositive name))
  | _ => .error (.refused (.notPositive name))

/-- How many records are wanted; `limit` counts when `record_limit` is not set. -/
def records (options : Record) : Except Fault (Option Int) := do
  match ← positive? options "record_limit" with
  | some n => return some n
  | none => positive? options "limit"

def scanned (options : Record) : Except Fault (Option Int) := positive? options "scan_limit"

def batch (options : Record) : Except Fault (Option Int) := positive? options "batch_size"

def pageSize (limits : List (Option Int)) : Option Int := (limits.filterMap id).min?

end Limits

end TableQuery
