/- How a delay grows from attempt to attempt.

   The delay of an attempt is the base times two to the power of the attempt less one. Whole exponents
   double the base, which loses nothing; an attempt may also be counted in fractions. -/

import TableQuery.Number.Power
import TableQuery.Value.Conversion

set_option autoImplicit false
set_option relaxedAutoImplicit false

namespace TableQuery

/-- The factor of a delay: two to a whole power, or another number. -/
inductive Growth where
  | doubled (times : Nat)
  | multiplied (factor : Binary64)
  deriving DecidableEq, Repr

namespace Growth

def apply : Growth → Binary64 → Binary64
  | .doubled times, x => x.doubled times
  | .multiplied factor, x => x.times factor

/-- The greatest exponent of a power of two that is a finite floating-point number. -/
def greatestDoublings : Nat := 1023

/-- Doubling the given number of times. A power of two that is too large is a fault. -/
def doubling (times : Nat) : Except Fault Growth :=
  if greatestDoublings < times then .error .tooLarge else .ok (.doubled times)

/-- The growth with a floating-point exponent. Only an infinite exponent gives an infinite factor. -/
def ofExponent (exponent : Binary64) : Except Fault Growth :=
  match exponent, exponent.powerOfTwo with
  | .finite negative mantissa power _, factor =>
    let (numerator, places) := Binary64.overPower negative mantissa power
    if places = 0 ∧ 0 ≤ numerator then doubling numerator.toNat
    else if factor matches .infinity _ then .error .tooLarge
    else .ok (.multiplied factor)
  | _, factor => .ok (.multiplied factor)

/-- The greatest exponent of a decimal number that can be counted down by one. -/
def greatestDecimalExponent : Int := 999999

/-- Whether counting a decimal number down by one leaves the range of decimal numbers. -/
def leavesDecimalRange : Decimal → Bool
  | .finite _ coefficient exponent =>
    decide (greatestDecimalExponent < exponent + digitCount coefficient - 1)
  | _ => false

def ofAttempt : Number → Except Fault Growth
  | .bool _ => doubling 0
  | .int n => doubling (n - 1).toNat
  | .float x => ofExponent x.lessOne
  | .decimal x => if leavesDecimalRange x then .error (.signal .overflow) else .error .wrongKind

end Growth

end TableQuery
