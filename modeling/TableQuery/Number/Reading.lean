/- Numbers read from text.

   A numeral is a sign, digits with at most one point, and an exponent. Each kind of number has its own
   rules around it: which white space may surround it, whether underscores may stand between digits,
   and which names stand for infinities and not-a-numbers. -/

import TableQuery.Number.Binary64
import TableQuery.Text.Digit

set_option autoImplicit false
set_option relaxedAutoImplicit false

namespace TableQuery

namespace Text

def digitsValue (start : Nat) (digits : Text) : Nat :=
  digits.foldl (fun n c => 10 * n + (c.asciiDigit?.getD 0)) start

def spanDigits (t : Text) : Text × Text := t.span (·.asciiDigit?.isSome)

/-- Splits off a sign; the first part says whether the sign was a minus. -/
def splitSign : Text → Bool × Text
  | .char '-' :: rest => (true, rest)
  | .char '+' :: rest => (false, rest)
  | t => (false, t)

/-- Takes out underscores, each of which must stand between two digits. The first argument says
whether the code point before was a digit. -/
def withoutUnderscores? : Bool → Text → Option Text
  | _, [] => some []
  | afterDigit, c :: rest =>
    if c = .char '_' then
      match afterDigit, rest with
      | true, d :: _ => if d.asciiDigit?.isSome then withoutUnderscores? false rest else none
      | _, _ => none
    else (withoutUnderscores? c.asciiDigit?.isSome rest).map (c :: ·)

end Text

/-- A numeral: a signed coefficient and a power of ten. -/
structure Numeral where
  negative : Bool
  coefficient : Nat
  exponent : Int
  deriving DecidableEq, Repr

namespace Numeral

def readExponent? : Text → Option Int
  | [] => some 0
  | c :: rest =>
    if c = .char 'e' ∨ c = .char 'E' then
      let (negative, digits) := Text.splitSign rest
      if digits.isEmpty ∨ digits.any (·.asciiDigit?.isNone) then none
      else
        let magnitude : Int := Text.digitsValue 0 digits
        some (if negative then -magnitude else magnitude)
    else none

def read? (t : Text) : Option Numeral :=
  let (negative, unsigned) := Text.splitSign t
  let (whole, afterWhole) := Text.spanDigits unsigned
  let (places, rest) := match afterWhole with
    | .char '.' :: afterPoint => Text.spanDigits afterPoint
    | _ => ([], afterWhole)
  if whole.isEmpty ∧ places.isEmpty then none
  else (readExponent? rest).map fun exponent =>
    { negative
      coefficient := Text.digitsValue (Text.digitsValue 0 whole) places
      exponent := exponent - places.length }

end Numeral

/-- A text that an integer could not be read from. -/
inductive IntegerFault where
  | malformed
  | tooLong (digits : Nat)
  deriving DecidableEq, Repr

namespace Integer

/-- The greatest number of digits that is read. -/
def digitLimit : Nat := 4300

/-- The digits that an integer starts with, taken out of the underscores between them, and what follows
them. -/
def leadingDigits? (t : Text) : Option (Text × Text) :=
  let (grouped, rest) := t.span fun c => c.asciiDigit?.isSome || c == .char '_'
  match Text.withoutUnderscores? false grouped with
  | some (digit :: digits) => some (digit :: digits, rest)
  | _ => none

/-- Reads an integer in ASCII, with surrounding blanks and with underscores between digits. Too many
digits are a fault before what follows them is looked at. -/
def readAscii (t : Text) : Except IntegerFault Int :=
  let (negative, unsigned) := Text.splitSign (t.dropWhile CodePoint.isAsciiBlank)
  match leadingDigits? unsigned with
  | none => .error .malformed
  | some (digits, rest) =>
    if digitLimit < digits.length then .error (.tooLong digits.length)
    else if rest.all CodePoint.isAsciiBlank then
      let magnitude : Int := Text.digitsValue 0 digits
      .ok (if negative then -magnitude else magnitude)
    else .error .malformed

def read (t : Text) : Except IntegerFault Int := readAscii t.numericAscii

end Integer

namespace Binary64

/-- Reads a floating-point number, with surrounding white space, with underscores between digits, and
with names for the infinities and the not-a-number in any case. -/
def read? (t : Text) : Option Binary64 :=
  let folded := t.numericAscii.trimmed CodePoint.isAsciiBlank
  match Text.withoutUnderscores? false folded with
  | none => none
  | some plain =>
    let (negative, name) := Text.splitSign plain.smallAscii
    if name = Text.ofString "inf" ∨ name = Text.ofString "infinity" then some (.infinity negative)
    else if name = Text.ofString "nan" then some .nan
    else (Numeral.read? plain).map fun n => ofDecimal n.negative n.coefficient n.exponent

end Binary64

namespace Decimal

/-- Reads the payload of a not-a-number to the end of the text. -/
def readPayload? (digits : Text) : Option Nat :=
  if digits.any (·.asciiDigit?.isNone) then none else some (Text.digitsValue 0 digits)

def read? (t : Text) : Option Decimal :=
  let folded := t.numericAscii
  let (negative, name) := Text.splitSign folded.smallAscii
  if name = Text.ofString "inf" ∨ name = Text.ofString "infinity" then some (.infinity negative)
  else match name with
    | .char 'n' :: .char 'a' :: .char 'n' :: payload =>
      (readPayload? payload).map (.nan negative false ·)
    | .char 's' :: .char 'n' :: .char 'a' :: .char 'n' :: payload =>
      (readPayload? payload).map (.nan negative true ·)
    | _ => (Numeral.read? folded).map fun n => .finite n.negative n.coefficient n.exponent

end Decimal

end TableQuery
