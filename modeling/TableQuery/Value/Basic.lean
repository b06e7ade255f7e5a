/- The values that options, conditions, requests and responses are made of. -/

import TableQuery.Number.Mixed
import TableQuery.Octets

set_option autoImplicit false
set_option relaxedAutoImplicit false

namespace TableQuery

/-- A value. Octets come in a fixed and in a growable kind, sets in a plain and in a frozen one; a
binary marks octets as a payload of the wire. A sequence is one of any further kind, such as a range: the
name of its kind, its written form, if it has one, and its items. An object is known by its name alone,
and the wildcard stands for any value in an expectation. -/
inductive Value where
  | null
  | bool (b : Bool)
  | int (n : Int)
  | float (x : Binary64)
  | decimal (x : Decimal)
  | text (t : Text)
  | octets (growable : Bool) (data : Octets)
  | binary (data : Octets)
  | list (items : List Value)
  | tuple (items : List Value)
  | set (frozen : Bool) (members : List Value)
  | map (entries : List (Value × Value))
  | sequence (kind : Text) (quotation : Option Text) (items : List Value)
  | object (name : Text)
  | wildcard
  deriving Inhabited, Repr

/-- The entries of a map in their order. Options, requests and responses are records. -/
abbrev Record := List (Value × Value)

namespace Value

/-- Whether a value counts as present: zeros, empty texts and empty containers do not. -/
def isTruthy : Value → Bool
  | .null => false
  | .bool b => b
  | .int n => n != 0
  | .float x => !x.isZero
  | .decimal x => !x.isZero
  | .text t => !t.isEmpty
  | .octets _ data => !data.isEmpty
  | .list items => !items.isEmpty
  | .tuple items => !items.isEmpty
  | .set _ members => !members.isEmpty
  | .map entries => !entries.isEmpty
  | .sequence _ _ items => !items.isEmpty
  | .binary _ | .object _ | .wildcard => true

def isNull : Value → Bool
  | .null => true
  | _ => false

def isText (t : Text) : Value → Bool
  | .text s => s == t
  | _ => false

def kindName : Value → Text
  | .null => "NoneType"
  | .bool _ => "bool"
  | .int _ => "int"
  | .float _ => "float"
  | .decimal _ => "Decimal"
  | .text _ => "str"
  | .octets false _ => "bytes"
  | .octets true _ => "bytearray"
  | .binary _ => "Binary"
  | .list _ => "list"
  | .tuple _ => "tuple"
  | .set false _ => "set"
  | .set true _ => "frozenset"
  | .map _ => "dict"
  | .sequence kind _ _ => kind
  | .object _ => "object"
  | .wildcard => "_Wildcard"

mutual

/-- Whether a value can be a key of a map and a member of a set: containers that can change cannot, and
neither can a signaling not-a-number. -/
def isKey : Value → Bool
  | .octets growable _ => !growable
  | .decimal (.nan _ signaling _) => !signaling
  | .list _ | .map _ => false
  | .set frozen _ => frozen
  | .tuple items => areKeys items
  | .sequence _ _ items => areKeys items
  | _ => true

def areKeys : List Value → Bool
  | [] => true
  | item :: rest => item.isKey && areKeys rest

end

def number? : Value → Option Number
  | .bool b => some (.bool b)
  | .int n => some (.int n)
  | .float x => some (.float x)
  | .decimal x => some (.decimal x)
  | _ => none

def ofInt? : Option Int → Value
  | some n => .int n
  | none => .null

/-- The values that a container yields one by one: code points of a text, numbers of octets, keys of a
map. Other values are no containers. -/
def elements? : Value → Option (List Value)
  | .text t => some (t.map fun c => .text [c])
  | .octets _ data => some (data.map fun octet => .int octet.toNat)
  | .list items => some items
  | .tuple items => some items
  | .set _ members => some members
  | .map entries => some (entries.map (·.1))
  | .sequence _ _ items => some items
  | _ => none

end Value

def Number.toValue : Number → Value
  | .bool b => .bool b
  | .int n => .int n
  | .float x => .float x
  | .decimal x => .decimal x

end TableQuery
