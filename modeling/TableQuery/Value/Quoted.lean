/- The written form of a value in messages.

   An integer with too many digits is not written out, and neither is what holds it. -/

import TableQuery.Value.Basic
import TableQuery.Number.Reading
import TableQuery.Number.Shortest
import TableQuery.Text.Quoted

set_option autoImplicit false
set_option relaxedAutoImplicit false

namespace TableQuery.Value

def listed (parts : List Text) : Text := Text.joined ", " parts

def numeral? (n : Int) : Option Text :=
  if digitCount n.natAbs ≤ Integer.digitLimit then some (Text.ofInt n) else none

mutual

/-- The written form, if there is one: texts and octets are quoted, containers show their kind by their
brackets. -/
def quoted? : Value → Option Text
  | .null => some "None"
  | .bool true => some "True"
  | .bool false => some "False"
  | .int n => numeral? n
  | .float x => some x.text
  | .decimal x => some ("Decimal('" ++ x.text ++ "')")
  | .text t => some t.quoted
  | .octets false data => some data.quoted
  | .octets true data => some data.quotedGrowable
  | .binary data => some ("Binary(" ++ data.quoted ++ ")")
  | .list items => do return "[" ++ listed (← quotedItems? items) ++ "]"
  | .tuple [item] => do return "(" ++ (← quoted? item) ++ ",)"
  | .tuple items => do return "(" ++ listed (← quotedItems? items) ++ ")"
  | .set false [] => some "set()"
  | .set false members => do return "\x7b" ++ listed (← quotedItems? members) ++ "\x7d"
  | .set true [] => some "frozenset()"
  | .set true members => do return "frozenset(\x7b" ++ listed (← quotedItems? members) ++ "\x7d)"
  | .map entries => do return "\x7b" ++ listed (← quotedEntries? entries) ++ "\x7d"
  | .sequence _ quotation _ => quotation
  | .object name => some ("<" ++ name ++ ">")
  | .wildcard => some "ANY"

def quotedItems? : List Value → Option (List Text)
  | [] => some []
  | item :: rest => do return (← item.quoted?) :: (← quotedItems? rest)

def quotedEntries? : List (Value × Value) → Option (List Text)
  | [] => some []
  | (key, value) :: rest => do
    return ((← key.quoted?) ++ ": " ++ (← value.quoted?)) :: (← quotedEntries? rest)

end

/-- The plain form, if there is one: a text as it is and a decimal number by its digits, anything else in
its written form. A binary has no plain form. -/
def plain? : Value → Option Text
  | .text t => some t
  | .decimal x => some x.text
  | .binary _ => none
  | v => v.quoted?

end TableQuery.Value
