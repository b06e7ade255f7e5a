/- Base64: three octets are four groups of six bits.

   Writing uses one of two alphabets and can leave out the padding. Reading is lenient: it passes
   over whatever is not in the alphabet, and ends at the padding that completes a quantum. -/

import TableQuery.Octets

set_option autoImplicit false
set_option relaxedAutoImplicit false

namespace TableQuery.Base64

/-- The two alphabets differ in their last two digits. -/
inductive Alphabet where
  | standard
  | urlSafe
  deriving DecidableEq, Repr

def Alphabet.digit (alphabet : Alphabet) (group : Nat) : Char :=
  if group < 26 then Char.ofNat (0x41 + group)
  else if group < 52 then Char.ofNat (0x61 + (group - 26))
  else if group < 62 then Char.ofNat (0x30 + (group - 52))
  else match alphabet, group with
    | .standard, 62 => '+'
    | .standard, _ => '/'
    | .urlSafe, 62 => '-'
    | .urlSafe, _ => '_'

/-- The group of six bits of a standard digit. -/
def group? (c : CodePoint) : Option Nat :=
  let n := c.number
  if 0x41 ≤ n ∧ n ≤ 0x5A then some (n - 0x41)
  else if 0x61 ≤ n ∧ n ≤ 0x7A then some (n - 0x61 + 26)
  else if 0x30 ≤ n ∧ n ≤ 0x39 then some (n - 0x30 + 52)
  else if n = 0x2B then some 62
  else if n = 0x2F then some 63
  else none

def encodeBare (alphabet : Alphabet) : Octets → Text
  | [] => []
  | [a] =>
    [.char (alphabet.digit (a.toNat / 4)), .char (alphabet.digit (a.toNat % 4 * 16))]
  | [a, b] =>
    [.char (alphabet.digit (a.toNat / 4)),
      .char (alphabet.digit (a.toNat % 4 * 16 + b.toNat / 16)),
      .char (alphabet.digit (b.toNat % 16 * 4))]
  | a :: b :: c :: rest =>
    .char (alphabet.digit (a.toNat / 4)) ::
      .char (alphabet.digit (a.toNat % 4 * 16 + b.toNat / 16)) ::
      .char (alphabet.digit (b.toNat % 16 * 4 + c.toNat / 64)) ::
      .char (alphabet.digit (c.toNat % 64)) :: encodeBare alphabet rest

def padding (length : Nat) : Text :=
  List.replicate ((4 - length % 4) % 4) (.char '=')

def encode (alphabet : Alphabet) (data : Octets) : Text :=
  let bare := encodeBare alphabet data
  bare ++ padding bare.length

/-- The octets that the groups of an unfinished quantum determine. -/
def octetsHeld : List Nat → Octets
  | [a, b] => [UInt8.ofNat (a * 4 + b / 16)]
  | [a, b, c] => [UInt8.ofNat (a * 4 + b / 16), UInt8.ofNat (b % 16 * 16 + c / 4)]
  | _ => []

/-- Reads on with the groups of an unfinished quantum held back and `pads` padding marks seen since
the last digit. -/
def decodeHolding (held : List Nat) (pads : Nat) : Text → Option Octets
  | [] => if held.isEmpty then some [] else none
  | c :: rest =>
    if c = .char '=' then
      if held.length < 2 then decodeHolding held pads rest
      else if 4 ≤ held.length + (pads + 1) then some (octetsHeld held)
      else decodeHolding held (pads + 1) rest
    else match group? c with
      | none => decodeHolding held pads rest
      | some d =>
        match held with
        | [x, y, z] =>
          (decodeHolding [] 0 rest).map fun data =>
            UInt8.ofNat (x * 4 + y / 16) :: UInt8.ofNat (y % 16 * 16 + z / 4) ::
              UInt8.ofNat (z % 4 * 64 + d) :: data
        | _ => decodeHolding (held ++ [d]) 0 rest

/-- The octets of a standard text, or `none` when it ends inside a quantum. -/
def decode (t : Text) : Option Octets := decodeHolding [] 0 t

/-- The standard spelling of a text in either alphabet. -/
def standardize (t : Text) : Text :=
  t.map fun c =>
    if c = .char '-' then .char '+' else if c = .char '_' then .char '/' else c

end TableQuery.Base64
