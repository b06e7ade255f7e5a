/- From conditions and projected names to expressions.

   Conditions map attribute names to operators with their operands. All operators are checked before the
   first token is made; operands are checked clause by clause. -/

import TableQuery.Expression.Clause
import TableQuery.Expression.Tables
import TableQuery.Value.Conversion

set_option autoImplicit false
set_option relaxedAutoImplicit false

namespace TableQuery

namespace Condition

def refuse {α : Type} (why : Refusal) : Except Fault α := .error (.refused why)

def sequence? : Value → Option (List Value)
  | .list items => some items
  | .tuple items => some items
  | .sequence _ _ items => some items
  | _ => none

/-- The greatest number of items that can be counted: that of a signed 64-bit word. -/
def countLimit : Nat := Nat.pow 2 63 - 1

def counted (items : List Value) : Except Fault (List Value) :=
  if countLimit < items.length then .error .tooLarge else .ok items

/-- The members that a membership condition can list. -/
def members? : Value → Option (List Value)
  | .set _ members => some members
  | v => sequence? v

def bounds (name : Text) (operand : Value) : Except Fault (Value × Value) :=
  match sequence? operand with
  | none => refuse (.betweenOperands name)
  | some items => do
    match ← counted items with
    | [low, high] => return (low, high)
    | _ => refuse (.betweenOperands name)

def choices (name : Text) (operand : Value) : Except Fault (List Value) :=
  match members? operand with
  | none => refuse (.membershipOperand name)
  | some [] => refuse (.membershipEmpty name)
  | some values => do
    if Refusal.membershipLimit < (← counted values).length then refuse .membershipTooLarge
    else return values

/-- The clause of one operator on one attribute. -/
def compileClause (name operator : Text) (operand : Value) : Compiling Clause := do
  let subject ← Compiling.name (.text name)
  match Operator.ofName? operator with
  | some (.comparison comparison) =>
    return .compares subject comparison (← Compiling.value operand)
  | some .beginsWith => return .beginsWith subject (← Compiling.value operand)
  | some .between =>
    let (low, high) ← bounds name operand
    return .between subject (← Compiling.value low) (← Compiling.value high)
  | some .membership =>
    let values ← choices name operand
    return .membership subject (← values.mapM Compiling.value)
  | some .contains => return .contains subject (← Compiling.value operand)
  | some .lacks => return .lacks subject (← Compiling.value operand)
  | some .absent => return .absent subject
  | some .present => return .present subject
  | none => throw (.refused (.operatorUnknown operator))

/-- Checks that an operator is among the allowed ones. -/
def checkOperator (allowed : List Text) (name operator : Value) : Except Fault Unit :=
  if allowed.any (operator.isText ·) then .ok ()
  else do refuse (.operatorRefused (← name.quote) (← operator.plain))

/-- Checks that the body of a condition maps allowed operators to operands, at least one. -/
def checkBody (allowed : List Text) (name : Value) : Value → Except Fault Unit
  | .map (entry :: entries) =>
    (entry :: entries).forM fun e => checkOperator allowed name e.1
  | _ => do refuse (.conditionEmpty (← name.quote))

def check (allowed : List Text) (conditions : Record) : Except Fault Unit :=
  conditions.forM fun entry => checkBody allowed entry.1 entry.2

/-- Name, operator and operand of each demand, in order. -/
def demands (conditions : Record) : List (Value × Value × Value) :=
  conditions.flatMap fun (name, body) =>
    match body with
    | .map operators => operators.map fun (operator, operand) => (name, operator, operand)
    | _ => []

def compileDemand (demand : Value × Value × Value) : Compiling Clause := do
  let name ← demand.1.plain
  let operator ← demand.2.1.plain
  compileClause name operator demand.2.2

def compileRecord (allowed : List Text) (conditions : Record) : Compiling (List Clause) := do
  check allowed conditions
  (demands conditions).mapM compileDemand

def compile (allowed : List Text) (conditions : Value) : Compiling (List Clause) :=
  if !conditions.isTruthy then return []
  else do
    let record ← conditions.entries
    compileRecord allowed record

end Condition

namespace Projection

/-- The attribute names of a projection: none, a single one, or those a container yields. -/
def names (attributes : Value) : Except Fault (List Value) :=
  if !attributes.isTruthy then .ok []
  else match attributes with
    | .text t => .ok [.text t]
    | other => other.elements

def compile (attributes : Value) : Compiling (List Text) := do
  let listed ← names attributes
  listed.mapM fun v => do
    let name ← v.plain
    Compiling.name (.text name)

def render (projected : List Text) : Text := Text.joined ", " projected

end Projection

end TableQuery
