/- Release numbers.

   The release is the version that a JSON text records. A candidate of a release is written with a dash
   there and without one in the version of the package. -/

import TableQuery.Fault
import TableQuery.Json.Reader
import TableQuery.Text.Digit

set_option autoImplicit false
set_option relaxedAutoImplicit false

namespace TableQuery.Release

def unknown : Text := "0.0.0"

/-- The JSON text that records the version of this release. -/
def recorded : Text := "\x7b\n  \"version\": \"0.3.0\"\n\x7d\n"

/-- The version that a JSON text records: the member `version` of an object, if it is a text that is
not empty. A text that is no JSON, or none at all, records nothing. -/
def ofText [DepthLimits] (recording : Option Text) : Except Fault Text :=
  match recording.map Json.read with
  | none => .ok unknown
  | some (.error _) => .ok unknown
  | some (.ok (.object members)) =>
    match Json.member? members "version" with
    | some (.text (c :: rest)) => .ok (c :: rest)
    | _ => .ok unknown
  | some (.ok _) => .error .missingMember

/-- Splits off a run of decimal digits of any script that is not empty. -/
def takeDigits? (t : Text) : Option (Text × Text) :=
  match t.span (·.digit?.isSome) with
  | ([], _) => none
  | (digits, rest) => some (digits, rest)

def takePoint? : Text → Option Text
  | .char '.' :: rest => some rest
  | _ => none

def takeTriple? (t : Text) : Option (Text × Text) := do
  let (first, t) ← takeDigits? t
  let t ← takePoint? t
  let (second, t) ← takeDigits? t
  let t ← takePoint? t
  let (third, t) ← takeDigits? t
  return (first ++ "." ++ second ++ "." ++ third, t)

def takeMark? : Text → Option Text
  | .char '-' :: .char 'r' :: .char 'c' :: .char '.' :: rest => some rest
  | .char '-' :: .char 'r' :: .char 'c' :: rest => some rest
  | _ => none

def takeNumber? (t : Text) : Option Text :=
  match t.span (·.asciiDigit?.isSome) with
  | ([], _) => none
  | (digits, []) => some digits
  | (digits, [.char '\n']) => some digits
  | _ => none

/-- The candidate that a version names, in its normal form. -/
def candidate? (version : Text) : Option Text := do
  let (triple, t) ← takeTriple? version
  let t ← takeMark? t
  let number ← takeNumber? t
  return triple ++ "rc" ++ number

/-- The normal form of a version: candidates lose their dash, and other versions stay as they are. -/
def normalize (version : Text) : Text := (candidate? version).getD version

end TableQuery.Release
