/- Conversions of values that can fail: to text, to a number, to a record. Comparing two numbers can fail
   as well. -/

import TableQuery.Fault
import TableQuery.Value.Equality
import TableQuery.Number.Reading

set_option autoImplicit false
set_option relaxedAutoImplicit false

namespace TableQuery.Value

/-- The written form, which an integer with too many digits does not have. -/
def quote (v : Value) : Except Fault Text :=
  match v.quoted? with
  | some t => .ok t
  | none => .error (.unusable .integerUnwritable)

/-- What a value without a plain form is at fault for: its kind, or an integer in it. -/
def plainFault : Value → Fault
  | .binary _ => .wrongKind
  | _ => .unusable .integerUnwritable

def plain (v : Value) : Except Fault Text :=
  match v.plain? with
  | some t => .ok t
  | none => .error v.plainFault

def elements (v : Value) : Except Fault (List Value) :=
  match v.elements? with
  | some items => .ok items
  | none => .error .wrongKind

def entries : Value → Except Fault Record
  | .map entries => .ok entries
  | _ => .error .missingMember

def toNumber (v : Value) : Except Fault Number :=
  match v.number? with
  | some x => .ok x
  | none => .error .wrongKind

/-- The greatest length of a quotation in a message about a number. -/
def quotationLimit : Nat := 200

def integerRead (quotation : Text) : Except IntegerFault Int → Except Fault Int
  | .ok n => .ok n
  | .error .malformed => .error (.unusable (.integerMalformed (quotation.take quotationLimit)))
  | .error (.tooLong digits) => .error (.unusable (.integerTooLong digits))

/-- The integer part of a number, or the integer that a text or octets hold. -/
def toInteger : Value → Except Fault Int
  | .bool b => .ok (if b then 1 else 0)
  | .int n => .ok n
  | .float (.finite negative mantissa exponent _) =>
    .ok (Binary64.truncated negative mantissa exponent)
  | .float (.infinity _) => .error .tooLarge
  | .float .nan => .error (.unusable .floatNotInteger)
  | .decimal (.finite negative coefficient exponent) =>
    .ok (Decimal.truncated negative coefficient exponent)
  | .decimal (.infinity _) => .error .tooLarge
  | .decimal (.nan ..) => .error (.unusable .decimalNotInteger)
  | .text t => integerRead t.quoted (Integer.read t)
  | .octets _ data =>
    integerRead (Octets.quoted (data.take quotationLimit)) <| Integer.readAscii <|
      data.map fun octet => if octet.toNat < 0x80 then .ofNumber octet.toNat else .char '?'
  | _ => .error .wrongKind

/-- The entry that a pair stands for, where `index` is its place among the pairs. -/
def pairEntry (index : Nat) (pair : Value) : Except Fault (Value × Value) :=
  match pair.elements? with
  | some [key, value] => if key.isKey then .ok (key, value) else .error .wrongKind
  | some items => .error (.unusable (.entryLength index items.length))
  | none => .error .wrongKind

/-- The record of a map, or of a container of pairs. -/
def toRecord : Value → Except Fault Record
  | .map entries => .ok entries
  | v => do
    let pairs ← v.elements
    let entries ← pairs.zipIdx.mapM fun (pair, index) => pairEntry index pair
    return Record.ofEntries entries

end TableQuery.Value

namespace TableQuery.Number

/-- Whether the first number is less than the second, where the comparison can fail. -/
def below (a b : Number) : Except Fault Bool := (a.less b).mapError .signal

/-- The floating-point number nearest to a number. A whole number can be too large, and a decimal number
does not mix with floating-point ones. -/
def toBinary64 : Number → Except Fault Binary64
  | .bool b => .ok (Binary64.ofDecimal false (if b then 1 else 0) 0)
  | .int n =>
    match Binary64.ofDecimal (n < 0) n.natAbs 0 with
    | .infinity _ => .error .tooLarge
    | x => .ok x
  | .float x => .ok x
  | .decimal _ => .error .wrongKind

end TableQuery.Number
