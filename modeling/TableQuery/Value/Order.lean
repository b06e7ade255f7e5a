/- The order of values.

   Texts, octets and numbers are ordered among themselves, lists and tuples by their first difference, and
   sets by proper inclusion. Values of different kinds have no order. -/

import TableQuery.Value.Conversion
import TableQuery.Value.Sorting

set_option autoImplicit false
set_option relaxedAutoImplicit false

namespace TableQuery

namespace Value

/-- Whether the first of two numbers is less; other values have no order. -/
def lessNumber (a b : Value) : Except Fault Bool :=
  match a.number?, b.number? with
  | some x, some y => x.below y
  | _, _ => .error .wrongKind

mutual

def less : Value → Value → Except Fault Bool
  | .text s, .text t => .ok (!t.atMost s)
  | .octets _ a, .octets _ b => .ok (decide (a.map UInt8.toNat < b.map UInt8.toNat))
  | .set _ as, .set _ bs =>
    .ok (as.length < bs.length && as.all fun a => bs.any (sameKey a))
  | .list as, .list bs => lessItems as bs
  | .tuple as, .tuple bs => lessItems as bs
  | a, b => lessNumber a b
termination_by structural a => a

/-- Whether the first of two sequences is less: the first different items decide, and a beginning is less
than the whole. -/
def lessItems : List Value → List Value → Except Fault Bool
  | _, [] => .ok false
  | [], _ :: _ => .ok true
  | a :: as, b :: bs =>
    match same a b with
    | .ok true => lessItems as bs
    | .ok false => less a b
    | .error condition => .error (.signal condition)
termination_by structural as => as

end

/-- The least of the values that are present. The first one counts until a later one is less. -/
def least (values : List Value) : Except Fault Value :=
  match values.filter fun v => !v.isNull with
  | [] => .ok .null
  | first :: rest => rest.foldlM (fun least v => do return if ← less v least then v else least) first

end Value

def Record.ordered (record : Record) : Except Fault Record :=
  Sorting.sorted (fun entry other => Value.less entry.1 other.1) record

end TableQuery
