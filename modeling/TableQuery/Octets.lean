/- Byte strings as lists of octets, and their hexadecimal form. -/

import TableQuery.Text.Basic

set_option autoImplicit false
set_option relaxedAutoImplicit false

namespace TableQuery

abbrev Octets := List UInt8

namespace Octets

/-- The value of a hexadecimal digit, in either case. -/
def hexDigit? (c : CodePoint) : Option Nat :=
  let n := c.number
  if 0x30 ≤ n ∧ n ≤ 0x39 then some (n - 0x30)
  else if 0x61 ≤ n ∧ n ≤ 0x66 then some (n - 0x61 + 10)
  else if 0x41 ≤ n ∧ n ≤ 0x46 then some (n - 0x41 + 10)
  else none

def toHex (data : Octets) : Text :=
  data.flatMap fun octet => Text.hexadecimal 2 octet.toNat

def ofHex? : Text → Option Octets
  | [] => some []
  | [_] => none
  | high :: low :: rest =>
    match hexDigit? high, hexDigit? low, ofHex? rest with
    | some h, some l, some data => some (UInt8.ofNat (16 * h + l) :: data)
    | _, _, _ => none

/-- An ASCII text with one octet for each code point; no other text has one. -/
def ofAscii? (t : Text) : Option Octets :=
  t.mapM fun c => if c.number < 0x80 then some (UInt8.ofNat c.number) else none

end Octets

end TableQuery
