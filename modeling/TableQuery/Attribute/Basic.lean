/- Attribute values on the wire.

   Each is a map with one entry, whose key names the kind. Numbers travel as text, and the members of a
   set share one kind. -/

import TableQuery.Value.Basic

set_option autoImplicit false
set_option relaxedAutoImplicit false

namespace TableQuery

/-- An attribute value. Octets keep whether they were of the growable kind. -/
inductive Attribute where
  | null
  | bool (b : Bool)
  | number (numeral : Text)
  | text (t : Text)
  | octets (growable : Bool) (data : Octets)
  | numbers (numerals : List Text)
  | texts (ts : List Text)
  | binaries (items : List (Bool × Octets))
  | list (items : List Attribute)
  | map (entries : List (Text × Attribute))
  deriving Inhabited, Repr

namespace Attribute

def single (kind : String) (content : Value) : Value := .map [(.text kind, content)]

mutual

def toValue : Attribute → Value
  | .null => single "NULL" (.bool true)
  | .bool b => single "BOOL" (.bool b)
  | .number numeral => single "N" (.text numeral)
  | .text t => single "S" (.text t)
  | .octets growable data => single "B" (.octets growable data)
  | .numbers numerals => single "NS" (.list (numerals.map .text))
  | .texts ts => single "SS" (.list (ts.map .text))
  | .binaries items => single "BS" (.list (items.map fun item => .octets item.1 item.2))
  | .list items => single "L" (.list (toValues items))
  | .map entries => single "M" (.map (toRecord entries))

def toValues : List Attribute → List Value
  | [] => []
  | item :: rest => item.toValue :: toValues rest

def toRecord : List (Text × Attribute) → Record
  | [] => []
  | (name, item) :: rest => (.text name, item.toValue) :: toRecord rest

end

/-- Names an attribute value; a name that is already there keeps its place and takes the new value. -/
def insertEntry (name : Text) (item : Attribute) : List (Text × Attribute) → List (Text × Attribute)
  | [] => [(name, item)]
  | entry :: rest =>
    if entry.1 = name then (name, item) :: rest else entry :: insertEntry name item rest

end Attribute

end TableQuery
