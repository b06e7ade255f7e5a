/- Back-off policies: how long to wait after the n-th throttled call in a row. -/

import TableQuery.Backoff.Growth

set_option autoImplicit false
set_option relaxedAutoImplicit false

namespace TableQuery

/-- A policy waits for the same time after each call, or doubles the time from call to call. The ceiling
ends the doubling after that many calls, and the maximum bounds the delay itself. Every setting keeps the
kind of number that it was given as. A policy of the caller's own is known by the delays that it lists, from
the first attempt on. -/
inductive Policy where
  | constant (seconds : Number)
  | exponential (base greatest : Number) (ceiling : Option Number)
  | listed (delays : List Number)
  deriving DecidableEq, Repr

namespace Policy

/-- A setting that must not be below the given number, or it is refused. -/
def setting (given : Value) (least : Number) (why : Refusal) : Except Fault Number := do
  let x ← given.toNumber
  if ← x.below least then throw (.refused why)
  return x

def ceilingOf (given : Value) : Except Fault (Option Number) := do
  if given.isNull then return none
  let ceiling ← setting given (.int 0) .ceilingNotPositive
  if ceiling.isZero then throw (.refused .ceilingNotPositive)
  return some ceiling

def makeConstant (seconds : Value) : Except Fault Policy := do
  return .constant (← setting seconds (.int 0) .secondsNegative)

/-- A policy with a doubling delay: the base is not negative, the maximum not below it, and the ceiling
positive. -/
def makeExponential (base greatest ceiling : Value) : Except Fault Policy := do
  let base ← setting base (.int 0) .baseSecondsNegative
  let greatest ← setting greatest base .maxSecondsBelowBase
  return .exponential base greatest (← ceilingOf ceiling)

def usualSeconds : Binary64 := Binary64.ofDecimal false 1 0

def usualBase : Binary64 := Binary64.ofDecimal false 5 (-2)

def usualGreatest : Binary64 := Binary64.ofDecimal false 1 0

def usual : Policy := .exponential (.float usualBase) (.float usualGreatest) none

/-- The attempt that counts for the delay: at least the first, and none after the ceiling. -/
def counted (ceiling : Option Number) (attempt : Number) : Except Fault Number := do
  let attempt := if ← attempt.below (.int 1) then .int 1 else attempt
  match ceiling with
  | some last => if ← last.below attempt then return last else return attempt
  | none => return attempt

/-- The delay after the given attempt. A constant delay does not look at the attempt; a doubling one needs a
number. A listed delay is one of those in the list, and after these there is no number to wait for. -/
def delay (policy : Policy) (attempt : Value) : Except Fault Number :=
  match policy with
  | .constant seconds => .ok seconds
  | .exponential base greatest ceiling => do
    let growth ← Growth.ofAttempt (← counted ceiling (← attempt.toNumber))
    let seconds := Number.float (growth.apply (← base.toBinary64))
    if ← greatest.below seconds then return greatest else return seconds
  | .listed delays =>
    match attempt with
    | .int n => (delays[(n - 1).toNat]?).elim (.error .wrongKind) .ok
    | _ => .error .wrongKind

end Policy

end TableQuery
