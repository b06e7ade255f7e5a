/- The operators of conditions. -/

import TableQuery.Text.Basic

set_option autoImplicit false
set_option relaxedAutoImplicit false

namespace TableQuery

/-- A comparison of an attribute with one operand. -/
inductive Comparison where
  | equal
  | different
  | greater
  | less
  | atLeast
  | atMost
  deriving DecidableEq, Repr

/-- An operator says what a condition demands of an attribute. -/
inductive Operator where
  | comparison (comparison : Comparison)
  | beginsWith
  | between
  | membership
  | contains
  | lacks
  | absent
  | present
  deriving DecidableEq, Repr

namespace Comparison

def sign : Comparison → Text
  | .equal => "="
  | .different => "<>"
  | .greater => ">"
  | .less => "<"
  | .atLeast => ">="
  | .atMost => "<="

end Comparison

namespace Operator

/-- Every operator, with the name it has in conditions. -/
def named : List (Text × Operator) :=
  [("eq", .comparison .equal), ("ne", .comparison .different), ("gt", .comparison .greater),
    ("lt", .comparison .less), ("gte", .comparison .atLeast), ("lte", .comparison .atMost),
    ("begins_with", .beginsWith), ("between", .between), ("in", .membership),
    ("contains", .contains), ("not_contains", .lacks), ("null", .absent), ("not_null", .present)]

def ofName? (name : Text) : Option Operator :=
  (named.find? fun entry => entry.1 = name).map (·.2)

def keyNames : List Text := ["eq", "gt", "lt", "gte", "lte", "begins_with", "between"]

def filterOnlyNames : List Text := ["ne", "in", "contains", "not_contains", "null", "not_null"]

def filterNames : List Text := keyNames ++ filterOnlyNames

end Operator

end TableQuery
