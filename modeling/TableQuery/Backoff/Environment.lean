/- Back-off settings from environment variables.

   A variable that is missing, empty or blank counts as unset, except that a blank strategy names none. -/

import TableQuery.Backoff.Policy
import TableQuery.Number.Reading
import TableQuery.Text.Blank
import TableQuery.Text.Lowercase

set_option autoImplicit false
set_option relaxedAutoImplicit false

namespace TableQuery

/-- Environment variables; a variable can be listed without a value. -/
abbrev Environment := List (Text × Option Text)

namespace Environment

def strategyName : Text := "DYNAQUERY_BACKOFF"

def baseName : Text := "DYNAQUERY_BACKOFF_BASE_SECONDS"

def greatestName : Text := "DYNAQUERY_BACKOFF_MAX_SECONDS"

def ceilingName : Text := "DYNAQUERY_BACKOFF_CEILING"

def retriesName : Text := "DYNAQUERY_BACKOFF_MAX_RETRIES"

def text (environment : Environment) (name : Text) : Text :=
  ((environment.find? fun entry => entry.1 = name).bind (·.2)).getD []

/-- The floating-point number of a variable, or the given one when it is blank. -/
def seconds (environment : Environment) (name : Text) (default : Binary64) : Except Fault Binary64 :=
  let raw := (environment.text name).strip
  if raw.isEmpty then .ok default
  else match Binary64.read? raw with
    | some x => .ok x
    | none => .error (.refused (.variableNotNumber name))

def whole? (environment : Environment) (name : Text) : Except Fault (Option Int) :=
  let raw := (environment.text name).strip
  if raw.isEmpty then .ok none
  else match Integer.read raw with
    | .ok n => .ok (some n)
    | .error _ => .error (.refused (.variableNotInteger name))

def usualStrategy : Text := "exponential"

def strategy (environment : Environment) : Text :=
  let raw := environment.text strategyName
  (if raw.isEmpty then usualStrategy else raw).strip.small

def policy (environment : Environment) : Except Fault Policy :=
  let name := environment.strategy
  if name = Text.ofString "constant" then do
    Policy.makeConstant (.float (← environment.seconds baseName Policy.usualSeconds))
  else if name = usualStrategy then do
    let base ← environment.seconds baseName Policy.usualBase
    let greatest ← environment.seconds greatestName Policy.usualGreatest
    let ceiling ← environment.whole? ceilingName
    Policy.makeExponential (.float base) (.float greatest) (.ofInt? ceiling)
  else .error (.refused (.strategyUnknown name))

/-- The greatest number of retries that the environment sets, which must not be negative. -/
def maxRetries (environment : Environment) : Except Fault (Option Int) := do
  match ← environment.whole? retriesName with
  | some n => if n < 0 then throw (.refused (.variableNegative retriesName)) else return some n
  | none => return none

end Environment

end TableQuery
