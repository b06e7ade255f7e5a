/- Equality of values.

   Numbers are equal by their value, whatever their kind; a list never equals a tuple, sequences of one
   kind are equal by their items, and sets are equal whatever their kind and order. Comparing a
   signaling not-a-number with a number is itself a fault. -/

import TableQuery.Value.Basic

set_option autoImplicit false
set_option relaxedAutoImplicit false

namespace TableQuery

def Decimal.same : Decimal → Decimal → Except Signal Bool
  | .nan _ true _, _ => .error .invalid
  | _, .nan _ true _ => .error .invalid
  | .nan .., _ => .ok false
  | _, .nan .. => .ok false
  | .infinity a, .infinity b => .ok (a == b)
  | .infinity _, _ => .ok false
  | _, .infinity _ => .ok false
  | x, y => .ok (x.lowest == y.lowest)

namespace Value

def octets? : Value → Option Octets
  | .octets _ data => some data
  | .binary data => some data
  | _ => none

/-- Whether a comparison was made and came out equal. -/
def holds : Except Signal Bool → Bool
  | .ok b => b
  | .error _ => false

/-- Whether a value is a number equal to the given one. -/
def sameNumber (x : Decimal) (y : Value) : Except Signal Bool :=
  match y.number? with
  | some y => x.same y.exact
  | none => .ok false

mutual

def same : Value → Value → Except Signal Bool
  | .null, .null => .ok true
  | .text s, .text t => .ok (s == t)
  | .list as, .list bs => if as.length = bs.length then sameItems as bs else .ok false
  | .tuple as, .tuple bs => sameItems as bs
  | .set _ as, .set _ bs => if as.length = bs.length then sameMembers as bs else .ok false
  | .map as, .map bs => if as.length = bs.length then sameEntries as bs else .ok false
  | .sequence kind _ as, .sequence other _ bs =>
    if kind = other ∧ as.length = bs.length then sameItems as bs else .ok false
  | .wildcard, .wildcard => .ok true
  | .octets _ a, y => .ok (y.octets? == some a)
  | .binary a, y => .ok (y.octets? == some a)
  | .bool b, y => sameNumber (.ofInt (if b then 1 else 0)) y
  | .int n, y => sameNumber (.ofInt n) y
  | .float x, y => sameNumber x.exact y
  | .decimal x, y => sameNumber x y
  | _, _ => .ok false
termination_by structural a => a

/-- Whether two sequences have equal items in order. -/
def sameItems : List Value → List Value → Except Signal Bool
  | [], [] => .ok true
  | a :: as, b :: bs =>
    match same a b with
    | .ok true => sameItems as bs
    | other => other
  | _, _ => .ok false
termination_by structural as => as

/-- Whether each value of the first list has an equal one in the second. -/
def sameMembers : List Value → List Value → Except Signal Bool
  | [], _ => .ok true
  | a :: as, bs => if bs.any fun b => holds (same a b) then sameMembers as bs else .ok false
termination_by structural as => as

/-- Whether each entry of the first list has an equal one in the second. -/
def sameEntries : List (Value × Value) → List (Value × Value) → Except Signal Bool
  | [], _ => .ok true
  | (key, a) :: rest, bs =>
    match bs.find? fun entry => holds (same key entry.1) with
    | none => .ok false
    | some entry =>
      match same a entry.2 with
      | .ok true => sameEntries rest bs
      | other => other
termination_by structural as => as

end

/-- Whether two values that can be keys are one key. -/
def sameKey (a b : Value) : Bool := holds (same a b)

/-- The values without those that equal an earlier one. -/
def distinct (values : List Value) : List Value :=
  values.foldl (fun kept v => if kept.any (sameKey · v) then kept else kept ++ [v]) []

end Value

namespace Record

/-- Adds an entry; a key that is already there keeps its place and takes the new value. -/
def insert (record : Record) (key value : Value) : Record :=
  match record with
  | [] => [(key, value)]
  | entry :: rest =>
    if Value.sameKey entry.1 key then (entry.1, value) :: rest else entry :: insert rest key value

def ofEntries (entries : List (Value × Value)) : Record :=
  entries.foldl (fun record entry => insert record entry.1 entry.2) []

def get? (record : Record) (name : Text) : Option Value :=
  (record.find? fun entry => entry.1.isText name).map (·.2)

/-- The value under a text key; an absent key counts as an absent value. -/
def get (record : Record) (name : Text) : Value := (get? record name).getD .null

def put (record : Record) (name : Text) (value : Value) : Record :=
  match record with
  | [] => [(.text name, value)]
  | entry :: rest =>
    if entry.1.isText name then (entry.1, value) :: rest else entry :: put rest name value

end Record

end TableQuery
