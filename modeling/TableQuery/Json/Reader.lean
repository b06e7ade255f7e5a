/- Reading JSON.

   The reader takes the standard form, and beside it the names of the infinities and of the
   not-a-number. Escaped halves of a surrogate pair are joined when both are there and kept as they are
   when one stands alone. Of members with one name the last value counts. Containers may stand inside
   one another as deep as the machine can follow them. -/

import TableQuery.Depth
import TableQuery.Json.Basic
import TableQuery.Number.Reading
import TableQuery.Octets

set_option autoImplicit false
set_option relaxedAutoImplicit false

namespace TableQuery

/-- Why a text is not read as JSON. -/
inductive JsonFault where
  | malformed
  | integerTooLong (digits : Nat)
  | tooDeep
  deriving DecidableEq, Repr

namespace Json

/-- Reading stops at the first fault. A reader gives what it takes from the front of a text, and the
rest. -/
abbrev Parsing := Except JsonFault

def isSpace (c : CodePoint) : Bool :=
  c = .char ' ' || c = .char '\t' || c = .char '\n' || c = .char '\r'

def skipSpace (t : Text) : Text := t.dropWhile isSpace

def fourHex? (a b c d : CodePoint) : Option Nat :=
  match Octets.hexDigit? a, Octets.hexDigit? b, Octets.hexDigit? c, Octets.hexDigit? d with
  | some w, some x, some y, some z => some (0x1000 * w + 0x100 * x + 0x10 * y + z)
  | _, _, _, _ => none

/-- The character of an escape with one letter. -/
def simpleEscape? (c : CodePoint) : Option Char :=
  match c with
  | .char '"' => some '"'
  | .char '\\' => some '\\'
  | .char '/' => some '/'
  | .char 'b' => some '\x08'
  | .char 'f' => some '\x0c'
  | .char 'n' => some '\n'
  | .char 'r' => some '\r'
  | .char 't' => some '\t'
  | _ => none

def joinHalves (leading trailing : Nat) : CodePoint :=
  .ofNumber (0x10000 + (leading - 0xD800) * 0x400 + (trailing - 0xDC00))

def before (c : CodePoint) : Parsing (Text × Text) → Parsing (Text × Text)
  | .ok (t, rest) => .ok (c :: t, rest)
  | .error fault => .error fault

/-- Puts a leading half that stands alone before what was taken. -/
def release (held : Option Nat) (taken : Parsing (Text × Text)) : Parsing (Text × Text) :=
  match held with
  | some leading => before (.ofNumber leading) taken
  | none => taken

/-- Reads a string after its opening quote, up to and with the closing one. A leading half is held
back until the next code point shows whether it is one of a pair. -/
def takeText : Option Nat → Text → Parsing (Text × Text)
  | _, [] => .error .malformed
  | held, .char '"' :: rest => release held (.ok ([], rest))
  | held, .char '\\' :: .char 'u' :: a :: b :: c :: d :: rest =>
    match fourHex? a b c d with
    | none => .error .malformed
    | some n =>
      if 0xDC00 ≤ n ∧ n < 0xE000 then
        match held with
        | some leading => before (joinHalves leading n) (takeText none rest)
        | none => before (.ofNumber n) (takeText none rest)
      else if 0xD800 ≤ n ∧ n < 0xDC00 then release held (takeText (some n) rest)
      else release held (before (.ofNumber n) (takeText none rest))
  | held, .char '\\' :: c :: rest =>
    match simpleEscape? c with
    | some plain => release held (before (.char plain) (takeText none rest))
    | none => .error .malformed
  | held, c :: rest =>
    if c.number < 0x20 then .error .malformed else release held (before c (takeText none rest))

/-- Reads a number: a whole part without leading zeros, then places and an exponent if they are
complete. -/
def takeNumber (t : Text) : Parsing (Json × Text) :=
  let (negative, unsigned) : Bool × Text := match t with
    | .char '-' :: rest => (true, rest)
    | _ => (false, t)
  let (whole, afterWhole) : Text × Text := match unsigned with
    | .char '0' :: rest => ([.char '0'], rest)
    | _ => Text.spanDigits unsigned
  if whole.isEmpty then .error .malformed
  else
    let (places, afterPlaces) : Text × Text := match afterWhole with
      | .char '.' :: rest =>
        let (digits, after) := Text.spanDigits rest
        if digits.isEmpty then ([], afterWhole) else (digits, after)
      | _ => ([], afterWhole)
    let (exponent, rest) : Option Int × Text := match afterPlaces with
      | c :: afterMark =>
        if c = .char 'e' ∨ c = .char 'E' then
          let (below, unsignedExponent) := Text.splitSign afterMark
          let (digits, after) := Text.spanDigits unsignedExponent
          if digits.isEmpty then (none, afterPlaces)
          else
            let magnitude : Int := Text.digitsValue 0 digits
            (some (if below then -magnitude else magnitude), after)
        else (none, afterPlaces)
      | [] => (none, afterPlaces)
    let coefficient := Text.digitsValue (Text.digitsValue 0 whole) places
    match places, exponent with
    | [], none =>
      if Integer.digitLimit < whole.length then .error (.integerTooLong whole.length)
      else .ok (.integer (if negative then -(coefficient : Int) else coefficient), rest)
    | _, _ => .ok (.number (.finite negative coefficient (exponent.getD 0 - places.length)), rest)

def takeScalar : Text → Parsing (Json × Text)
  | .char 'n' :: .char 'u' :: .char 'l' :: .char 'l' :: rest => .ok (.null, rest)
  | .char 't' :: .char 'r' :: .char 'u' :: .char 'e' :: rest => .ok (.bool true, rest)
  | .char 'f' :: .char 'a' :: .char 'l' :: .char 's' :: .char 'e' :: rest => .ok (.bool false, rest)
  | .char 'N' :: .char 'a' :: .char 'N' :: rest => .ok (.number (.nan false false 0), rest)
  | .char 'I' :: .char 'n' :: .char 'f' :: .char 'i' :: .char 'n' :: .char 'i' :: .char 't' ::
      .char 'y' :: rest => .ok (.number (.infinity false), rest)
  | .char '-' :: .char 'I' :: .char 'n' :: .char 'f' :: .char 'i' :: .char 'n' :: .char 'i' ::
      .char 't' :: .char 'y' :: rest => .ok (.number (.infinity true), rest)
  | t => takeNumber t

/-- The number of containers that may stand inside one that is opened, where `depth` of them may be
opened inside one another. -/
def opened (depth : Nat) : Parsing Nat :=
  match depth with
  | 0 => .error .tooDeep
  | inner + 1 => .ok inner

mutual

/-- Reads a value, without white space before it. At most `depth` containers of it may stand inside one
another. -/
def takeValue (depth : Nat) : Nat → Text → Parsing (Json × Text)
  | 0, _ => .error .malformed
  | fuel + 1, t =>
    match t with
    | .char '"' :: rest => do
      let (content, rest) ← takeText none rest
      return (.text content, rest)
    | .char '[' :: rest => do
      let inner ← opened depth
      match skipSpace rest with
      | .char ']' :: rest => return (.array [], rest)
      | rest => do
        let (items, rest) ← takeItems inner fuel rest
        return (.array items, rest)
    | .char '\x7b' :: rest => do
      let inner ← opened depth
      match skipSpace rest with
      | .char '\x7d' :: rest => return (.object [], rest)
      | rest => do
        let (members, rest) ← takeMembers inner fuel [] rest
        return (.object members, rest)
    | _ => takeScalar t

def takeItems (depth : Nat) : Nat → Text → Parsing (List Json × Text)
  | 0, _ => .error .malformed
  | fuel + 1, t => do
    let (item, rest) ← takeValue depth fuel t
    match skipSpace rest with
    | .char ']' :: rest => return ([item], rest)
    | .char ',' :: rest => do
      let (items, rest) ← takeItems depth fuel (skipSpace rest)
      return (item :: items, rest)
    | _ => .error .malformed

/-- Reads the members of an object after those already found, up to and with the closing brace. -/
def takeMembers (depth : Nat) :
    Nat → List (Text × Json) → Text → Parsing (List (Text × Json) × Text)
  | 0, _, _ => .error .malformed
  | fuel + 1, found, t =>
    match t with
    | .char '"' :: rest => do
      let (name, rest) ← takeText none rest
      match skipSpace rest with
      | .char ':' :: rest => do
        let (value, rest) ← takeValue depth fuel (skipSpace rest)
        let found := insertMember name value found
        match skipSpace rest with
        | .char '\x7d' :: rest => return (found, rest)
        | .char ',' :: rest => takeMembers depth fuel found (skipSpace rest)
        | _ => .error .malformed
      | _ => .error .malformed
    | _ => .error .malformed

end

/-- Reads the one value that a text holds. Each step takes a code point or opens a container, which
bounds their number by twice the length. -/
def read [DepthLimits] (t : Text) : Parsing Json := do
  let (value, rest) ← takeValue DepthLimits.readable (2 * t.length + 2) (skipSpace t)
  if (skipSpace rest).isEmpty then return value else .error .malformed

end Json

end TableQuery
