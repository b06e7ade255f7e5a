/- Products of floating-point numbers, and powers of two with any exponent.

   A fractional power is a chain of square roots, one for each binary place of the exponent. It is
   computed in whole numbers with enough guard places to round it to the nearest number. -/

import TableQuery.Number.Binary64

set_option autoImplicit false
set_option relaxedAutoImplicit false

namespace TableQuery

def squareRootFrom (n : Nat) : Nat → Nat → Nat
  | 0, root => root
  | places + 1, root =>
    let next := root + Nat.pow 2 places
    squareRootFrom n places (if next * next ≤ n then next else root)

def squareRoot (n : Nat) : Nat := squareRootFrom n (Nat.log2 n / 2 + 1) 0

namespace Binary64

def hasMinus : Binary64 → Bool
  | .finite negative _ _ _ => negative
  | .infinity negative => negative
  | .nan => false

/-- The number nearest to a signed multiple of a power of two. -/
def ofScaled (negative : Bool) (magnitude : Nat) (exponent : Int) : Binary64 :=
  let (numerator, denominator) := inUnits magnitude 1 (-exponent)
  ofQuotient negative numerator denominator

def times (x y : Binary64) : Binary64 :=
  match x, y with
  | .finite n₁ m₁ e₁ _, .finite n₂ m₂ e₂ _ => ofScaled (n₁ != n₂) (m₁ * m₂) (e₁ + e₂)
  | .nan, _ => .nan
  | _, .nan => .nan
  | x, y => if x.isZero || y.isZero then .nan else .infinity (x.hasMinus != y.hasMinus)

def overPower (negative : Bool) (mantissa : Nat) (exponent : Int) : Int × Nat :=
  let (magnitude, power) :=
    if 0 ≤ exponent then (mantissa * Nat.pow 2 exponent.toNat, 0) else halved mantissa (-exponent).toNat
  (if negative then -(magnitude : Int) else magnitude, power)

def lessOne : Binary64 → Binary64
  | .finite negative mantissa exponent _ =>
    let (numerator, power) := overPower negative mantissa exponent
    let difference := numerator - Int.pow 2 power
    ofScaled (difference < 0) difference.natAbs (-(power : Int))
  | x => x

/-- The number of binary places to which fractional powers are computed. -/
def guardPlaces : Nat := 128

/-- Two to the power of `numerator / 2 ^ places`, a fraction less than one, measured in units of
`2 ^ (-guardPlaces)`. -/
def fractionalPower : Nat → Nat → Nat
  | 0, _ => Nat.pow 2 guardPlaces
  | places + 1, numerator =>
    squareRoot (Nat.pow 2 (numerator / Nat.pow 2 places) *
      fractionalPower places (numerator % Nat.pow 2 places) * Nat.pow 2 guardPlaces)

/-- The exponents of two beyond which a power is zero or infinite. -/
def exponentLimit : Nat := 1100

def powerOfTwo : Binary64 → Binary64
  | .finite negative mantissa exponent _ =>
    let (numerator, places) := overPower negative mantissa exponent
    let whole := numerator / Int.pow 2 places
    if (exponentLimit : Int) < whole then .infinity false
    else if whole < -(exponentLimit : Int) then zero false
    else ofScaled false (fractionalPower places (numerator % Int.pow 2 places).toNat) (whole - guardPlaces)
  | .infinity true => zero false
  | .infinity false => .infinity false
  | .nan => .nan

end Binary64

end TableQuery
