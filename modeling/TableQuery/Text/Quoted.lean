/- Quotations in messages.

   A quotation stands in single quotes, or in double quotes when the text holds a single quote and no
   double one. The quote in use, the backslash and whatever is not printable are escaped. -/

import TableQuery.Text.Printable
import TableQuery.Octets

set_option autoImplicit false
set_option relaxedAutoImplicit false

namespace TableQuery

namespace Text

/-- The quote that encloses a text with the given code points. -/
def enclosingQuote (t : Text) : Char :=
  if t.contains (.char '\'') && !t.contains (.char '"') then '"' else '\''

/-- The escapes that quotations of texts and of octets share. -/
def sharedEscape? (quote : Char) (n : Nat) : Option Text :=
  if n = quote.toNat ∨ n = 0x5C then some [.char '\\', .ofNumber n]
  else if n = 0x09 then some "\\t"
  else if n = 0x0A then some "\\n"
  else if n = 0x0D then some "\\r"
  else none

def quotedPoint (quote : Char) (c : CodePoint) : Text :=
  match sharedEscape? quote c.number with
  | some escape => escape
  | none =>
    if c.isPrintable then [c]
    else if c.number < 0x100 then "\\x" ++ hexadecimal 2 c.number
    else if c.number < 0x10000 then "\\u" ++ hexadecimal 4 c.number
    else "\\U" ++ hexadecimal 8 c.number

def quoted (t : Text) : Text :=
  let quote := enclosingQuote t
  .char quote :: t.flatMap (quotedPoint quote) ++ [.char quote]

end Text

namespace Octets

def quotedOctet (quote : Char) (octet : UInt8) : Text :=
  match Text.sharedEscape? quote octet.toNat with
  | some escape => escape
  | none =>
    if 0x20 ≤ octet.toNat ∧ octet.toNat < 0x7F then [.ofNumber octet.toNat]
    else "\\x" ++ Text.hexadecimal 2 octet.toNat

def enclosingQuote (data : Octets) : Char :=
  Text.enclosingQuote (data.map fun octet => .ofNumber octet.toNat)

def quoted (data : Octets) : Text :=
  let quote := data.enclosingQuote
  .char 'b' :: .char quote :: data.flatMap (quotedOctet quote) ++ [.char quote]

/-- The quotation of growable octets, in which a single quote is escaped in any case. -/
def quotedGrowable (data : Octets) : Text :=
  let quote := data.enclosingQuote
  "bytearray(b" ++ ([.char quote] : Text) ++ data.flatMap (quotedOctet '\'') ++
    ([.char quote] : Text) ++ ")"

end Octets

end TableQuery
