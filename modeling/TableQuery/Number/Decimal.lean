/- Decimal numbers of any size and precision.

   A finite number keeps its coefficient and exponent apart, so that 1.5 and 1.50 are equal and
   written differently. Beside the finite numbers stand two infinities and the not-a-numbers, quiet or
   signaling, with a payload. -/

import TableQuery.Text.Basic

set_option autoImplicit false
set_option relaxedAutoImplicit false

namespace TableQuery

/-- A decimal number: a finite one is its signed coefficient times a power of ten. -/
inductive Decimal where
  | finite (negative : Bool) (coefficient : Nat) (exponent : Int)
  | infinity (negative : Bool)
  | nan (negative signaling : Bool) (payload : Nat)
  deriving DecidableEq, Repr

def digitCount (n : Nat) : Nat := (Nat.toDigits 10 n).length

/-- Drops trailing zeros of a coefficient, at most `fuel` of them, and raises the exponent. -/
def dropTrailingZeros : Nat → Nat → Int → Nat × Int
  | 0, coefficient, exponent => (coefficient, exponent)
  | fuel + 1, coefficient, exponent =>
    if coefficient ≠ 0 ∧ coefficient % 10 = 0 then
      dropTrailingZeros fuel (coefficient / 10) (exponent + 1)
    else (coefficient, exponent)

namespace Decimal

instance : Inhabited Decimal := ⟨.finite false 0 0⟩

def ofInt (n : Int) : Decimal := .finite (n < 0) n.natAbs 0

def signText (negative : Bool) : Text := if negative then "-" else ""

/-- Digits with a point after the first `place` of them, filled up with zeros on either side. -/
def pointed (digits : Text) (place : Int) : Text :=
  if place ≤ 0 then "0." ++ Text.zeros (-place).toNat ++ digits
  else if place < digits.length then
    digits.take place.toNat ++ "." ++ digits.drop place.toNat
  else digits ++ Text.zeros (place.toNat - digits.length)

def exponentText (exponent : Int) : Text :=
  (if exponent < 0 then "-" else "+") ++ Text.ofNat exponent.natAbs

/-- Finite numbers are written positionally while the exponent is not positive and at most five zeros
follow the point; otherwise one digit stands before the point and an exponent follows. -/
def text : Decimal → Text
  | .finite negative coefficient exponent =>
    let digits := Text.ofNat coefficient
    let place := exponent + digits.length
    signText negative ++
      (if exponent ≤ 0 ∧ -6 < place then pointed digits place
      else pointed digits 1 ++ "E" ++ exponentText (place - 1))
  | .infinity negative => signText negative ++ "Infinity"
  | .nan negative signaling payload =>
    signText negative ++ (if signaling then "sNaN" else "NaN") ++
      (if payload = 0 then [] else Text.ofNat payload)

def isZero : Decimal → Bool
  | .finite _ coefficient _ => coefficient == 0
  | _ => false

/-- The finite number in lowest terms, with one form for each value: no trailing zeros, and an
unsigned zero. -/
def lowest : Decimal → Decimal
  | .finite negative coefficient exponent =>
    if coefficient = 0 then .finite false 0 0
    else
      let (c, e) := dropTrailingZeros (digitCount coefficient) coefficient exponent
      .finite negative c e
  | x => x

def truncated (negative : Bool) (coefficient : Nat) (exponent : Int) : Int :=
  let magnitude :=
    if 0 ≤ exponent then coefficient * Nat.pow 10 exponent.toNat
    else if (digitCount coefficient : Int) ≤ -exponent then 0
    else coefficient / Nat.pow 10 (-exponent).toNat
  if negative then -(magnitude : Int) else magnitude

/-- Whether the first finite number is less than the second. -/
def finiteLess (n₁ : Bool) (c₁ : Nat) (e₁ : Int) (n₂ : Bool) (c₂ : Nat) (e₂ : Int) : Bool :=
  let place₁ := e₁ + digitCount c₁
  let place₂ := e₂ + digitCount c₂
  let smaller (ca : Nat) (ea : Int) (cb : Nat) (eb : Int) : Bool :=
    let base := min ea eb
    decide (ca * Nat.pow 10 (ea - base).toNat < cb * Nat.pow 10 (eb - base).toNat)
  let magnitudeLess (ca : Nat) (ea pa : Int) (cb : Nat) (eb pb : Int) : Bool :=
    if ca = 0 then cb != 0
    else if cb = 0 then false
    else if pa = pb then smaller ca ea cb eb
    else decide (pa < pb)
  match n₁ && c₁ != 0, n₂ && c₂ != 0 with
  | false, false => magnitudeLess c₁ e₁ place₁ c₂ e₂ place₂
  | true, true => magnitudeLess c₂ e₂ place₂ c₁ e₁ place₁
  | true, false => true
  | false, true => false

def less : Decimal → Decimal → Bool
  | .nan .., _ => false
  | _, .nan .. => false
  | .infinity a, .infinity b => a && !b
  | .infinity a, _ => a
  | _, .infinity b => !b
  | .finite n₁ c₁ e₁, .finite n₂ c₂ e₂ => finiteLess n₁ c₁ e₁ n₂ c₂ e₂

def isNan : Decimal → Bool
  | .nan .. => true
  | _ => false

end Decimal

end TableQuery
