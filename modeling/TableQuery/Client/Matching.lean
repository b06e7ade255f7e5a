/- Matching a request against an expected shape.

   A map is matched when each of its keys is there with a matching value; further keys do not matter. A
   list is matched item by item. The wildcard is matched by everything, and any other value by its
   equals. -/

import TableQuery.Value.Conversion

set_option autoImplicit false
set_option relaxedAutoImplicit false

namespace TableQuery

/-- In what a value differs from the expected one. Values and keys are given by their quotations. -/
inductive Mismatch where
  | kind (expected actual : Text)
  | missingKey (quotation : Text)
  | length (expected actual : Nat)
  | unequal (expected actual : Text)
  deriving Repr

/-- The first difference between a value and its expected shape, and the path to it. -/
structure Difference where
  path : Text
  mismatch : Mismatch
  deriving Repr

namespace Mismatch

def describe : Mismatch → Text
  | .kind expected actual => "expected " ++ expected ++ ", got " ++ actual
  | .missingKey quotation => "missing key " ++ quotation
  | .length expected actual =>
    "expected " ++ Text.ofNat expected ++ " items, got " ++ Text.ofNat actual
  | .unequal expected actual => "expected " ++ expected ++ ", got " ++ actual

end Mismatch

namespace Difference

def describe (difference : Difference) : Text :=
  difference.path ++ ": " ++ difference.mismatch.describe

def keyPath (path key : Text) : Text := path ++ "." ++ key

def itemPath (path : Text) (index : Nat) : Text := path ++ "[" ++ Text.ofNat index ++ "]"

def ofLeaves (path : Text) (expected actual : Value) : Except Fault (Option Difference) :=
  match expected.same actual with
  | .ok true => .ok none
  | .ok false => do return some ⟨path, .unequal (← expected.quote) (← actual.quote)⟩
  | .error condition => .error (.signal condition)

mutual

/-- The first difference between a value and its expected shape, if there is one. -/
def find? (path : Text) : Value → Value → Except Fault (Option Difference)
  | .wildcard, _ => .ok none
  | .map expected, actual =>
    match actual with
    | .map entries => findEntries? path entries expected
    | other => .ok (some ⟨path, .kind "dict" other.kindName⟩)
  | .list expected, actual =>
    match actual with
    | .list items =>
      if expected.length = items.length then findItems? path 0 expected items
      else .ok (some ⟨path, .length expected.length items.length⟩)
    | other => .ok (some ⟨path, .kind "list" other.kindName⟩)
  | expected, actual => ofLeaves path expected actual
termination_by structural expected => expected

def findEntries? (path : Text) (actual : Record) :
    List (Value × Value) → Except Fault (Option Difference)
  | [] => .ok none
  | (key, expected) :: rest =>
    match actual.find? fun entry => Value.sameKey key entry.1 with
    | none => do return some ⟨path, .missingKey (← key.quote)⟩
    | some entry => do
      let name ← key.plain
      match ← find? (keyPath path name) expected entry.2 with
      | some difference => return some difference
      | none => findEntries? path actual rest
termination_by structural expected => expected

/-- The first difference between the items of a list, from the given index on, and those that are
expected. -/
def findItems? (path : Text) (index : Nat) :
    List Value → List Value → Except Fault (Option Difference)
  | expected :: rest, actual :: others => do
    match ← find? (itemPath path index) expected actual with
    | some difference => return some difference
    | none => findItems? path (index + 1) rest others
  | _, _ => .ok none
termination_by structural expected => expected

end

end Difference

end TableQuery
