/- Binary floating-point numbers of 64 bits.

   A finite number is a signed mantissa times a power of two, in the one form with a full mantissa or
   the least exponent. All arithmetic here is exact or rounds once to the nearest number, halves to the
   even mantissa. -/

import TableQuery.Number.Decimal

set_option autoImplicit false
set_option relaxedAutoImplicit false

namespace TableQuery

/-- The form of a finite number: a full mantissa, or the least exponent. -/
def IsBinary64 (mantissa : Nat) (exponent : Int) : Prop :=
  mantissa < Nat.pow 2 53 ∧ -1074 ≤ exponent ∧ exponent ≤ 971 ∧
    (Nat.pow 2 52 ≤ mantissa ∨ exponent = -1074)

instance (mantissa : Nat) (exponent : Int) : Decidable (IsBinary64 mantissa exponent) :=
  inferInstanceAs (Decidable (_ ∧ _))

/-- A binary floating-point number; all not-a-numbers are one. -/
inductive Binary64 where
  | finite (negative : Bool) (mantissa : Nat) (exponent : Int) (form : IsBinary64 mantissa exponent)
  | infinity (negative : Bool)
  | nan
  deriving DecidableEq, Repr

namespace Binary64

def zero (negative : Bool) : Binary64 := .finite negative 0 (-1074) (by decide)

instance : Inhabited Binary64 := ⟨zero false⟩

/-- The number with the given parts; what exceeds the greatest finite number is infinite. -/
def ofParts (negative : Bool) (mantissa : Nat) (exponent : Int) : Binary64 :=
  if h : IsBinary64 mantissa exponent then .finite negative mantissa exponent h
  else .infinity negative

def bitCount (n : Nat) : Nat := if n = 0 then 0 else Nat.log2 n + 1

/-- A quotient rounded to the nearest natural number, halves to even. -/
def nearest (numerator denominator : Nat) : Nat :=
  let quotient := numerator / denominator
  let remainder := numerator % denominator
  if denominator < 2 * remainder ∨ (denominator = 2 * remainder ∧ quotient % 2 = 1) then quotient + 1
  else quotient

/-- The numerator and the denominator of a quotient measured in units of `2 ^ exponent`. -/
def inUnits (numerator denominator : Nat) (exponent : Int) : Nat × Nat :=
  if 0 ≤ exponent then (numerator, denominator * Nat.pow 2 exponent.toNat)
  else (numerator * Nat.pow 2 (-exponent).toNat, denominator)

/-- The number nearest to a quotient. -/
def ofQuotient (negative : Bool) (numerator denominator : Nat) : Binary64 :=
  if numerator = 0 then zero negative
  else
    let estimate : Int := max (bitCount numerator - bitCount denominator - 53) (-1074)
    let (n, d) := inUnits numerator denominator estimate
    let exponent := if n / d < Nat.pow 2 53 then estimate else estimate + 1
    let (n, d) := inUnits numerator denominator exponent
    let mantissa := nearest n d
    if mantissa = Nat.pow 2 53 then ofParts negative (Nat.pow 2 52) (exponent + 1)
    else ofParts negative mantissa exponent

def ofDecimal (negative : Bool) (coefficient : Nat) (exponent : Int) : Binary64 :=
  let place := exponent + digitCount coefficient
  if coefficient = 0 ∨ place < -400 then zero negative
  else if 400 < place then .infinity negative
  else if 0 ≤ exponent then ofQuotient negative (coefficient * Nat.pow 10 exponent.toNat) 1
  else ofQuotient negative coefficient (Nat.pow 10 (-exponent).toNat)

/-- A finite number as a multiple of the least positive one. -/
def units? : Binary64 → Option Int
  | .finite negative mantissa exponent _ =>
    let magnitude : Nat := mantissa * Nat.pow 2 (exponent + 1074).toNat
    some (if negative then -(magnitude : Int) else magnitude)
  | _ => none

/-- Whether the first number is less than the second; a not-a-number is neither less nor greater than
any number. -/
def less (x y : Binary64) : Bool :=
  match x, y with
  | .nan, _ => false
  | _, .nan => false
  | .infinity true, .infinity true => false
  | .infinity true, _ => true
  | _, .infinity true => false
  | _, .infinity false => x != .infinity false
  | .infinity false, _ => false
  | .finite .., .finite .. =>
    match x.units?, y.units? with
    | some a, some b => decide (a < b)
    | _, _ => false

def isZero : Binary64 → Bool
  | .finite _ mantissa _ _ => mantissa == 0
  | _ => false

/-- The number doubled the given number of times. The mantissa is filled up first, so nothing is lost
unless the result exceeds the greatest finite number. -/
def doubled (x : Binary64) (times : Nat) : Binary64 :=
  match x with
  | .finite negative mantissa exponent _ =>
    if mantissa = 0 then x
    else
      let room := min times (53 - bitCount mantissa)
      ofParts negative (mantissa * Nat.pow 2 room) (exponent + (times - room : Nat))
  | _ => x

/-- The 64 bits: sign, eleven bits of exponent, 52 bits of mantissa. -/
def bits : Binary64 → Nat
  | .finite negative mantissa exponent _ =>
    let sign := if negative then Nat.pow 2 63 else 0
    if mantissa < Nat.pow 2 52 then sign + mantissa
    else sign + (exponent + 1075).toNat * Nat.pow 2 52 + (mantissa - Nat.pow 2 52)
  | .infinity negative => (if negative then Nat.pow 2 63 else 0) + 2047 * Nat.pow 2 52
  | .nan => 2047 * Nat.pow 2 52 + Nat.pow 2 51

/-- Drops common factors of two from a mantissa over a power of two. -/
def halved : Nat → Nat → Nat × Nat
  | mantissa, 0 => (mantissa, 0)
  | mantissa, power + 1 =>
    if mantissa % 2 = 0 then halved (mantissa / 2) power else (mantissa, power + 1)

/-- The decimal number of exactly the same value. -/
def exact : Binary64 → Decimal
  | .finite negative mantissa exponent _ =>
    if mantissa = 0 then .finite negative 0 0
    else if 0 ≤ exponent then .finite negative (mantissa * Nat.pow 2 exponent.toNat) 0
    else
      let (odd, power) := halved mantissa (-exponent).toNat
      .finite negative (odd * Nat.pow 5 power) (-(power : Int))
  | .infinity negative => .infinity negative
  | .nan => .nan false false 0

def truncated (negative : Bool) (mantissa : Nat) (exponent : Int) : Int :=
  let magnitude :=
    if 0 ≤ exponent then mantissa * Nat.pow 2 exponent.toNat else mantissa / Nat.pow 2 (-exponent).toNat
  if negative then -(magnitude : Int) else magnitude

end Binary64

end TableQuery
