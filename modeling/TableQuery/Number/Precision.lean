/- The decimal precision of the wire.

   Numbers on the wire have at most 38 digits and lie between the least and the greatest exponent. A
   number that does not fit is not rounded silently: the first of its conditions is signaled, in the
   order overflow, underflow, inexact, rounded, clamped. -/

import TableQuery.Number.Decimal

set_option autoImplicit false
set_option relaxedAutoImplicit false

namespace TableQuery

/-- A condition under which a decimal number does not fit the precision of the wire. -/
inductive Signal where
  | overflow
  | underflow
  | inexact
  | rounded
  | clamped
  | invalid
  deriving DecidableEq, Repr

namespace Precision

def digits : Nat := 38

def greatest : Int := 126

/-- The least exponent of a first digit that has the full precision. -/
def least : Int := -128

/-- The least exponent of a last digit. -/
def tiniest : Int := least - (digits - 1)

/-- Whether the last `n` digits of a positive coefficient are zeros. -/
def endsInZeros (coefficient n : Nat) : Bool :=
  n < digitCount coefficient && coefficient % Nat.pow 10 n == 0

def carries (coefficient excess : Nat) : Bool :=
  let quotient := coefficient / Nat.pow 10 excess
  let remainder := coefficient % Nat.pow 10 excess
  let up := Nat.pow 10 excess < 2 * remainder ||
    (Nat.pow 10 excess == 2 * remainder && quotient % 2 == 1)
  up && quotient + 1 == Nat.pow 10 digits

def finiteSignal? (coefficient : Nat) (exponent : Int) : Option Signal :=
  let count := digitCount coefficient
  let first := exponent + count - 1
  if greatest < first then
    if coefficient = 0 then some .clamped else some .overflow
  else if first < least ∧ exponent < tiniest then
    if coefficient = 0 then some .clamped
    else if endsInZeros coefficient (tiniest - exponent).toNat then some .rounded
    else some .underflow
  else if digits < count then
    let excess := count - digits
    if coefficient % Nat.pow 10 excess = 0 then some .rounded
    else if carries coefficient excess ∧ first = greatest then some .overflow
    else some .inexact
  else none

/-- The number itself when it fits. A payload that is too long is dropped. -/
def fit : Decimal → Except Signal Decimal
  | .finite negative coefficient exponent =>
    match finiteSignal? coefficient exponent with
    | some signal => .error signal
    | none => .ok (.finite negative coefficient exponent)
  | .nan negative signaling payload =>
    if payload ≠ 0 ∧ digits < digitCount payload then .ok (.nan false false 0)
    else .ok (.nan negative signaling payload)
  | .infinity negative => .ok (.infinity negative)

end Precision

end TableQuery
