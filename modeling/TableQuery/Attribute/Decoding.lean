/- Values read from attribute values.

   The first key of the map names the kind, in either case. Numbers become decimal numbers of the wire's
   precision, octets become binaries, and the sets become sets. -/

import TableQuery.Attribute.Basic
import TableQuery.Value.Conversion

set_option autoImplicit false
set_option relaxedAutoImplicit false

namespace TableQuery.Attribute

def fitted (x : Decimal) : Except Fault Decimal :=
  match Precision.fit x with
  | .ok y => .ok y
  | .error condition => .error (.signal condition)

def wholeOf? : Value → Option Int
  | .bool b => some (if b then 1 else 0)
  | .int n => some n
  | _ => none

def refuseTuple {α : Type} (why : DigitTupleFault) : Except Fault α :=
  .error (.unusable (.digitTuple why))

/-- The signed 64-bit word that a part of a digit tuple must be. -/
def wordOf (why : DigitTupleFault) (part : Value) : Except Fault Int :=
  match wholeOf? part with
  | none => refuseTuple why
  | some n => if -(Int.pow 2 63) ≤ n ∧ n < Int.pow 2 63 then .ok n else .error .tooLarge

def digitOf (part : Value) : Except Fault Nat := do
  let n ← wordOf .coefficient part
  if 0 ≤ n ∧ n ≤ 9 then return n.toNat else refuseTuple .coefficient

def tupleCoefficient : Value → Except Fault Nat
  | .list items | .tuple items => items.foldlM (fun n item => do return 10 * n + (← digitOf item)) 0
  | _ => refuseTuple .coefficient

/-- The kind of number that the last part of a digit tuple makes of a sign and a coefficient: a finite
one with this exponent, or the infinity or not-a-number that it names. -/
def tupleKind : Value → Except Fault (Bool → Nat → Decimal)
  | .text t =>
    if t = Text.ofString "F" then .ok fun negative _ => .infinity negative
    else if t = Text.ofString "n" then .ok (.nan · false ·)
    else if t = Text.ofString "N" then .ok (.nan · true ·)
    else refuseTuple .special
  | part => do
    let exponent ← wordOf .exponent part
    return (.finite · · exponent)

/-- The decimal number that a triple of sign, digits and exponent stands for. -/
def ofDigitTuple : List Value → Except Fault Decimal
  | [sign, digits, exponent] => do
    let sign ← wordOf .sign sign
    if sign ≠ 0 ∧ sign ≠ 1 then refuseTuple .sign
    let kind ← tupleKind exponent
    return kind (sign = 1) (← tupleCoefficient digits)
  | _ => refuseTuple .length

/-- The decimal number that the content of a number stands for. A text that is no number gives the
not-a-number. -/
def decodeNumber : Value → Except Fault Decimal
  | .text t => fitted ((Decimal.read? t).getD (.nan false false 0))
  | .bool b => .ok (.ofInt (if b then 1 else 0))
  | .int n => fitted (.ofInt n)
  | .decimal x => fitted x
  | .float x => fitted x.exact
  | .list items | .tuple items => do fitted (← ofDigitTuple items)
  | _ => .error .wrongKind

/-- The binary that the content of octets stands for. -/
def decodeOctets : Value → Except Fault Value
  | .octets _ data => .ok (.binary data)
  | _ => .error .wrongKind

/-- The binary that a member of a set of octets stands for: growable octets cannot be a member. -/
def decodeOctetsMember : Value → Except Fault Value
  | .octets false data => .ok (.binary data)
  | _ => .error .wrongKind

def member (v : Value) : Except Fault Value := if v.isKey then .ok v else .error .wrongKind

def decodeSet (rule : Value → Except Fault Value) (content : Value) : Except Fault Value := do
  let items ← content.elements
  let members ← items.mapM fun item => (rule item).bind member
  return .set false (Value.distinct members)

def decodeOther (v : Value) : Except Fault Value :=
  if v.isTruthy then .error .missingMember else .error .wrongKind

/-- What the kinds without nesting stand for; `none` for the nested and the unknown ones. -/
def decodeFlat? (kind : Text) (content : Value) : Option (Except Fault Value) :=
  if kind = Text.ofString "null" then some (.ok .null)
  else if kind = Text.ofString "bool" then some (.ok content)
  else if kind = Text.ofString "s" then some (.ok content)
  else if kind = Text.ofString "n" then some ((decodeNumber content).map .decimal)
  else if kind = Text.ofString "b" then some (decodeOctets content)
  else if kind = Text.ofString "ns" then
    some (decodeSet (fun item => (decodeNumber item).map .decimal) content)
  else if kind = Text.ofString "ss" then some (decodeSet .ok content)
  else if kind = Text.ofString "bs" then some (decodeSet decodeOctetsMember content)
  else none

mutual

def decode : Value → Except Fault Value
  | .map [] => .error .wrongKind
  | .map ((key, content) :: _) => do
    let kind := (← key.plain).smallAscii
    match decodeFlat? kind content with
    | some result => result
    | none =>
      if kind = Text.ofString "l" then (decodeList content).map .list
      else if kind = Text.ofString "m" then (decodeMap content).map .map
      else .error .wrongKind
  | v => decodeOther v
termination_by structural v => v

def decodeList : Value → Except Fault (List Value)
  | .list items => decodeItems items
  | .tuple items => decodeItems items
  | .set _ members => decodeItems members
  | .sequence _ _ items => decodeItems items
  | .map entries => decodeKeys entries
  | .text [] => .ok []
  | .text _ => .error .missingMember
  | .octets _ [] => .ok []
  | .octets _ (octet :: _) => .error (if octet = 0 then .wrongKind else .missingMember)
  | _ => .error .wrongKind
termination_by structural v => v

def decodeMap : Value → Except Fault Record
  | .map entries => decodeEntries entries
  | _ => .error .missingMember
termination_by structural v => v

def decodeItems : List Value → Except Fault (List Value)
  | [] => .ok []
  | item :: rest => do
    let v ← decode item
    let vs ← decodeItems rest
    return v :: vs
termination_by structural items => items

def decodeKeys : List (Value × Value) → Except Fault (List Value)
  | [] => .ok []
  | (key, _) :: rest => do
    let v ← decode key
    let vs ← decodeKeys rest
    return v :: vs
termination_by structural entries => entries

def decodeEntries : List (Value × Value) → Except Fault Record
  | [] => .ok []
  | (key, item) :: rest => do
    let v ← decode item
    let vs ← decodeEntries rest
    return (key, v) :: vs
termination_by structural entries => entries

end

end TableQuery.Attribute
