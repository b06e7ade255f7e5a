/- Values as attribute values.

   Plain values and sets have a wire form of their own. Literals allow more: a floating-point number
   travels as its shortest decimal, and lists, tuples and maps travel with all they hold. Where the room is
   bounded, a literal that is nested deeper is at fault for it. -/

import TableQuery.Attribute.Basic
import TableQuery.Value.Conversion
import TableQuery.Number.Shortest

set_option autoImplicit false
set_option relaxedAutoImplicit false

namespace TableQuery.Attribute

/-- The numeral of a decimal number that fits the wire. A result that is spelled as the plain infinity
or the plain not-a-number is refused. -/
def numeral (x : Decimal) : Except Fault Text :=
  match Precision.fit x with
  | .error condition => .error (.signal condition)
  | .ok fitted =>
    let written := fitted.text
    if written = Text.ofString "Infinity" ∨ written = Text.ofString "NaN" then .error .wrongKind
    else .ok written

/-- The decimal number that a whole or decimal number stands for. -/
def exactNumber? : Value → Option Decimal
  | .bool b => some (.ofInt (if b then 1 else 0))
  | .int n => some (.ofInt n)
  | .decimal x => some x
  | _ => none

def textOf? : Value → Option Text
  | .text t => some t
  | _ => none

/-- The octets that a value carries; those of a binary are of the fixed kind. -/
def octetsOf? : Value → Option (Bool × Octets)
  | .octets growable data => some (growable, data)
  | .binary data => some (false, data)
  | _ => none

/-- The wire form of a set: all members are numbers, or texts, or octets. -/
def ofMembers (members : List Value) : Except Fault Attribute :=
  match members.mapM exactNumber?, members.mapM textOf?, members.mapM octetsOf? with
  | some xs, _, _ => (xs.mapM numeral).map .numbers
  | none, some ts, _ => .ok (.texts ts)
  | none, none, some items => .ok (.binaries items)
  | none, none, none => .error .wrongKind

def ofPlain : Value → Except Fault Attribute
  | .null => .ok .null
  | .bool b => .ok (.bool b)
  | .int n => (numeral (.ofInt n)).map .number
  | .decimal x => (numeral x).map .number
  | .text t => .ok (.text t)
  | .octets growable data => .ok (.octets growable data)
  | .binary data => .ok (.octets false data)
  | .set _ members => ofMembers members
  | _ => .error .wrongKind

def ofPlainLiteral (literal : Value) : Except Fault Attribute :=
  match ofPlain literal with
  | .ok item => .ok item
  | .error fault =>
    if fault matches .wrongKind ∨ fault.isContentFault then
      do .error (.refused (.literalUnsupported (← literal.quote)))
    else .error fault

/-- The room inside a value that takes up some of it, where `none` is room without bounds. -/
def roomInside : Option Nat → Except Fault (Option Nat)
  | none => .ok none
  | some 0 => .error .tooDeep
  | some (inner + 1) => .ok (some inner)

mutual

/-- The wire form of a literal that finds room. -/
def ofLiteralWithin (room : Option Nat) (literal : Value) : Except Fault Attribute := do
  let inner ← roomInside room
  match literal with
  | .float x => ofPlainLiteral (.decimal x.decimal)
  | .list items => (ofLiteralsWithin inner items).map .list
  | .tuple items => (ofLiteralsWithin inner items).map .list
  | .map entries => (ofEntriesWithin inner [] entries).map .map
  | literal => ofPlainLiteral literal
termination_by structural literal

def ofLiteralsWithin (room : Option Nat) : List Value → Except Fault (List Attribute)
  | [] => .ok []
  | literal :: rest => do
    let item ← ofLiteralWithin room literal
    let items ← ofLiteralsWithin room rest
    return item :: items
termination_by structural literals => literals

/-- The wire form of the entries of a map after those already found, under the plain form of their
keys. -/
def ofEntriesWithin (room : Option Nat) (found : List (Text × Attribute)) :
    List (Value × Value) → Except Fault (List (Text × Attribute))
  | [] => .ok found
  | (key, literal) :: rest => do
    let name ← key.plain
    let item ← ofLiteralWithin room literal
    ofEntriesWithin room (insertEntry name item found) rest
termination_by structural entries => entries

end

def ofLiteral (literal : Value) : Except Fault Attribute := ofLiteralWithin none literal

def ofLiterals (literals : List Value) : Except Fault (List Attribute) := ofLiteralsWithin none literals

def ofEntries (found : List (Text × Attribute)) (entries : List (Value × Value)) :
    Except Fault (List (Text × Attribute)) :=
  ofEntriesWithin none found entries

theorem ofLiterals_cons (literal : Value) (rest : List Value) :
    ofLiterals (literal :: rest) =
      ofLiteral literal >>= fun item => ofLiterals rest >>= fun items => pure (item :: items) :=
  rfl

theorem ofEntries_cons (found : List (Text × Attribute)) (key literal : Value) (rest : Record) :
    ofEntries found ((key, literal) :: rest) =
      key.plain >>= fun name => ofLiteral literal >>= fun item =>
        ofEntries (insertEntry name item found) rest :=
  rfl

end TableQuery.Attribute
