/- The fewest digits that identify a binary floating-point number.

   The reals that round to a number form an interval. For each count of digits only the two decimals
   next to the number can lie in it, so the first count with a hit gives the shortest form, and of two
   hits the nearer is taken, an even last digit deciding between equals. -/

import TableQuery.Number.Binary64

set_option autoImplicit false
set_option relaxedAutoImplicit false

namespace TableQuery.Binary64

/-- A positive number and the bounds of its rounding interval, over one denominator. -/
structure RoundingInterval where
  lower : Nat
  value : Nat
  upper : Nat
  denominator : Nat
  closed : Bool

/-- The interval of a finite number: half a unit to either side, and a quarter below a power of two. Its
bounds belong to it when the mantissa is even. -/
def RoundingInterval.ofParts (mantissa : Nat) (exponent : Int) : RoundingInterval :=
  let below := if mantissa = Nat.pow 2 52 ∧ -1074 < exponent then 1 else 2
  let scale := Nat.pow 2 (exponent - 2).toNat
  { lower := (4 * mantissa - below) * scale
    value := 4 * mantissa * scale
    upper := (4 * mantissa + 2) * scale
    denominator := Nat.pow 2 (2 - exponent).toNat
    closed := mantissa % 2 == 0 }

namespace RoundingInterval

/-- Whether the decimal `digits * 10 ^ exponent` lies in the interval. -/
def holds (interval : RoundingInterval) (digits : Nat) (exponent : Int) : Bool :=
  let candidate := digits * Nat.pow 10 exponent.toNat * interval.denominator
  let scale := Nat.pow 10 (-exponent).toNat
  if interval.closed then
    interval.lower * scale ≤ candidate && candidate ≤ interval.upper * scale
  else interval.lower * scale < candidate && candidate < interval.upper * scale

/-- The position of the point before the first digit: the least `k` with the value below `10 ^ k`. -/
def place (interval : RoundingInterval) : Int :=
  (digitCount (interval.value * Nat.pow 10 330 / interval.denominator) : Int) - 330

/-- The decimal with the given number of digits that lies in the interval, if there is one, and the
nearer one if there are two. -/
def withDigits? (interval : RoundingInterval) (count : Nat) : Option (Nat × Int) :=
  let exponent := interval.place - count
  let numerator := interval.value * Nat.pow 10 (-exponent).toNat
  let denominator := interval.denominator * Nat.pow 10 exponent.toNat
  let digits := numerator / denominator
  match interval.holds digits exponent, interval.holds (digits + 1) exponent with
  | false, false => none
  | true, false => some (digits, exponent)
  | false, true => some (digits + 1, exponent)
  | true, true => some (nearest numerator denominator, exponent)

/-- The shortest decimal in the interval, without trailing zeros. Seventeen digits always suffice. -/
def shortest (interval : RoundingInterval) : Nat × Int :=
  match (List.range' 1 17).findSome? interval.withDigits? with
  | some (digits, exponent) => dropTrailingZeros (digitCount digits) digits exponent
  | none => (interval.value / interval.denominator, 0)

end RoundingInterval

/-- The shortest decimal that identifies a finite magnitude. -/
def shortest (mantissa : Nat) (exponent : Int) : Nat × Int :=
  if mantissa = 0 then (0, 0) else (RoundingInterval.ofParts mantissa exponent).shortest

/-- The number as its shortest form writes it: a whole number that is written positionally has one
zero after the point. -/
def decimal : Binary64 → Decimal
  | .finite negative mantissa exponent _ =>
    let (digits, power) := shortest mantissa exponent
    let place := power + digitCount digits
    if 0 ≤ power ∧ place ≤ 16 then .finite negative (digits * Nat.pow 10 (power.toNat + 1)) (-1)
    else .finite negative digits power
  | .infinity negative => .infinity negative
  | .nan => .nan false false 0

/-- The shortest text: positional when the point stands within sixteen digits of the first one or at
most three zeros follow it, otherwise with an exponent of at least two digits. -/
def text : Binary64 → Text
  | .finite negative mantissa exponent _ =>
    let (digits, power) := shortest mantissa exponent
    let written := Text.ofNat digits
    let place := power + written.length
    Decimal.signText negative ++
      (if 16 < place ∨ place ≤ -4 then
        let e := place - 1
        (if written.length = 1 then written else Decimal.pointed written 1) ++
          (if e < 0 then "e-" else "e+") ++
          (if e.natAbs < 10 then "0" else "") ++ Text.ofNat e.natAbs
      else if written.length ≤ place then Decimal.pointed written place ++ ".0"
      else Decimal.pointed written place)
  | .infinity negative => Decimal.signText negative ++ "inf"
  | .nan => "nan"

end TableQuery.Binary64
