/- The strict UTF-8 form of a text.

   Each character takes one to four octets, the shortest form only; surrogate halves have no form
   and are refused in both directions. -/

import TableQuery.Octets

set_option autoImplicit false
set_option relaxedAutoImplicit false

namespace TableQuery.Utf8

/-- The octets of a code point number, in the shortest of the four forms. -/
def octetsOf (n : Nat) : Octets :=
  if n < 0x80 then [UInt8.ofNat n]
  else if n < 0x800 then [UInt8.ofNat (0xC0 + n / 0x40), UInt8.ofNat (0x80 + n % 0x40)]
  else if n < 0x10000 then
    [UInt8.ofNat (0xE0 + n / 0x1000), UInt8.ofNat (0x80 + n / 0x40 % 0x40),
      UInt8.ofNat (0x80 + n % 0x40)]
  else
    [UInt8.ofNat (0xF0 + n / 0x40000), UInt8.ofNat (0x80 + n / 0x1000 % 0x40),
      UInt8.ofNat (0x80 + n / 0x40 % 0x40), UInt8.ofNat (0x80 + n % 0x40)]

def encode : Text → Option Octets
  | [] => some []
  | .char c :: rest => (encode rest).map (octetsOf c.toNat ++ ·)
  | .surrogate _ :: _ => none

/-- The six payload bits of a continuation octet. -/
def continuation? (octet : UInt8) : Option Nat :=
  if 0x80 ≤ octet.toNat ∧ octet.toNat < 0xC0 then some (octet.toNat - 0x80) else none

def two? (a b : UInt8) : Option Nat :=
  if 0xC2 ≤ a.toNat ∧ a.toNat < 0xE0 then
    (continuation? b).map fun y => (a.toNat - 0xC0) * 0x40 + y
  else none

/-- The number that a three-octet form stands for: no shorter form and no surrogate half. -/
def three? (a b c : UInt8) : Option Nat :=
  if 0xE0 ≤ a.toNat ∧ a.toNat < 0xF0 then
    match continuation? b, continuation? c with
    | some y, some z =>
      let n := (a.toNat - 0xE0) * 0x1000 + y * 0x40 + z
      if 0x800 ≤ n ∧ ¬ (0xD800 ≤ n ∧ n < 0xE000) then some n else none
    | _, _ => none
  else none

/-- The number that a four-octet form stands for: no shorter form and nothing past U+10FFFF. -/
def four? (a b c d : UInt8) : Option Nat :=
  if 0xF0 ≤ a.toNat ∧ a.toNat < 0xF5 then
    match continuation? b, continuation? c, continuation? d with
    | some x, some y, some z =>
      let n := (a.toNat - 0xF0) * 0x40000 + x * 0x1000 + y * 0x40 + z
      if 0x10000 ≤ n ∧ n < 0x110000 then some n else none
    | _, _, _ => none
  else none

def decode : Octets → Option Text
  | [] => some []
  | a :: afterOne =>
    if a.toNat < 0x80 then (decode afterOne).map (.char (Char.ofNat a.toNat) :: ·)
    else match afterOne with
      | [] => none
      | b :: afterTwo =>
        match two? a b with
        | some n => (decode afterTwo).map (.char (Char.ofNat n) :: ·)
        | none => match afterTwo with
          | [] => none
          | c :: afterThree =>
            match three? a b c with
            | some n => (decode afterThree).map (.char (Char.ofNat n) :: ·)
            | none => match afterThree with
              | [] => none
              | d :: afterFour =>
                match four? a b c d with
                | some n => (decode afterFour).map (.char (Char.ofNat n) :: ·)
                | none => none

end TableQuery.Utf8
