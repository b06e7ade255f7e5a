/- Numbers of mixed kinds.

   Truth values, whole numbers, floating-point and decimal numbers are compared by their exact values,
   whatever their kinds. Only a decimal number refuses to be compared with a not-a-number. -/

import TableQuery.Number.Binary64
import TableQuery.Number.Precision

set_option autoImplicit false
set_option relaxedAutoImplicit false

namespace TableQuery

/-- A number of one of four kinds. A truth value counts as one or zero. -/
inductive Number where
  | bool (b : Bool)
  | int (n : Int)
  | float (x : Binary64)
  | decimal (x : Decimal)
  deriving DecidableEq, Repr

namespace Number

instance : Inhabited Number := ⟨.int 0⟩

def exact : Number → Decimal
  | .bool b => .ofInt (if b then 1 else 0)
  | .int n => .ofInt n
  | .float x => x.exact
  | .decimal x => x

def isDecimal : Number → Bool
  | .decimal _ => true
  | _ => false

/-- Whether the first of two numbers of any kinds is less than the second by its exact value. -/
def lessExact (a b : Number) : Except Signal Bool :=
  if (a.isDecimal || b.isDecimal) && (a.exact.isNan || b.exact.isNan) then .error .invalid
  else .ok (a.exact.less b.exact)

/-- Whether the first number is less than the second. A comparison with a not-a-number is false, and
invalid when either number is a decimal one. -/
def less : Number → Number → Except Signal Bool
  | .int a, .int b => .ok (decide (a < b))
  | .float x, .float y => .ok (x.less y)
  | a, b => lessExact a b

def isZero : Number → Bool
  | .bool b => !b
  | .int n => n == 0
  | .float x => x.isZero
  | .decimal x => x.isZero

def isPositive : Number → Bool
  | .bool b => b
  | .int n => 0 < n
  | .float x => (Binary64.zero false).less x
  | .decimal x => (Decimal.ofInt 0).less x

end Number

end TableQuery
