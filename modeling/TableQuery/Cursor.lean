/- Cursors.

   A cursor is the text form of the key at which a page ends. The key's attributes are written as compact
   JSON in the order of their names, and the UTF-8 form of that in unpadded URL-safe Base64. Reading is
   lenient about white space, padding and foreign characters, and strict about everything inside. -/

import TableQuery.Value.Order
import TableQuery.Attribute.Basic
import TableQuery.Base64
import TableQuery.Json.Reader
import TableQuery.Json.Writer
import TableQuery.Text.Utf8

set_option autoImplicit false
set_option relaxedAutoImplicit false

namespace TableQuery

/-- An attribute of a key is a text, a number in its written form, or octets. -/
inductive KeyAttribute where
  | text (t : Text)
  | number (numeral : Text)
  | octets (data : Octets)
  deriving DecidableEq, Repr

abbrev Key := List (Text × KeyAttribute)

namespace KeyAttribute

def refuse {α : Type} (why : Unusable) : Except Fault α := .error (.unusable why)

def ofValue : Value → Except Fault KeyAttribute
  | .map [(kind, content)] =>
    if kind.isText "S" then
      match content with
      | .text t => .ok (.text t)
      | _ => refuse (.keyValueNotText "S")
    else if kind.isText "N" then
      match content with
      | .text t => .ok (.number t)
      | _ => refuse (.keyValueNotText "N")
    else if kind.isText "B" then
      match content with
      | .octets _ data => .ok (.octets data)
      | _ => refuse .keyValueNotOctets
    else do refuse (.keyKindUnsupported (← kind.plain))
  | _ => refuse .keyValueNotSingle

def toValue : KeyAttribute → Value
  | .text t => Attribute.single "S" (.text t)
  | .number numeral => Attribute.single "N" (.text numeral)
  | .octets data => Attribute.single "B" (.octets false data)

def toJson : KeyAttribute → Json
  | .text t => .object [("S", .text t)]
  | .number numeral => .object [("N", .text numeral)]
  | .octets data => .object [("B", .text (Base64.encode .standard data))]

def octetsOfText (t : Text) : Except Fault Octets :=
  if (Octets.ofAscii? t).isNone then refuse .notAscii
  else match Base64.decode t with
    | some data => .ok data
    | none => .error .notBase64

def ofJson : Json → Except Fault KeyAttribute
  | .object [(kind, .text t)] =>
    if kind = Text.ofString "S" then .ok (.text t)
    else if kind = Text.ofString "N" then .ok (.number t)
    else if kind = Text.ofString "B" then (octetsOfText t).map .octets
    else refuse (.keyKindUnsupported kind)
  | .object [(kind, _)] => refuse (.keyValueNotText kind)
  | _ => refuse .keyValueNotSingle

end KeyAttribute

namespace Key

/-- Names a key attribute; a name that is already there keeps its place and takes the new one. -/
def insert (name : Text) (part : KeyAttribute) : Key → Key
  | [] => [(name, part)]
  | entry :: rest => if entry.1 = name then (name, part) :: rest else entry :: insert name part rest

/-- The key that a record is, read in the order of its own keys. -/
def ofRecord (record : Record) : Except Fault Key := do
  let entries ← record.ordered
  entries.foldlM (fun key entry => do
    let name ← entry.1.plain
    let part ← KeyAttribute.ofValue entry.2
    return insert name part key) []

def toRecord (key : Key) : Record := key.map fun entry => (.text entry.1, entry.2.toValue)

def sorted (key : Key) : Key := Text.sortBy (·.1) key

def json (key : Key) : Text :=
  (Json.object (key.sorted.map fun entry => (entry.1, entry.2.toJson))).write

end Key

namespace Cursor

def ofKey (key : Key) : Except Fault Text :=
  match Utf8.encode key.json with
  | some data => .ok (Base64.encodeBare .urlSafe data)
  | none => .error .notEncodable

/-- The cursor of a last key as a page gives it; without a key it is empty. -/
def encode (lastKey : Value) : Except Fault Text :=
  if !lastKey.isTruthy then .ok []
  else match lastKey with
    | .map record => do ofKey (← Key.ofRecord record)
    | _ => .error (.unusable .keyNotMap)

/-- The JSON text that a cursor without surrounding white space holds. -/
def content (raw : Text) : Except Fault Text :=
  if (Octets.ofAscii? raw).isNone then .error (.unusable .notAscii)
  else match Base64.decode (Base64.standardize (raw ++ Base64.padding raw.length)) with
    | none => .error .notBase64
    | some data =>
      match Utf8.decode data with
      | none => .error .notUtf8
      | some t => .ok t

variable [DepthLimits]

/-- The key that a JSON text holds: an object with at least one member. -/
def keyOfJson (t : Text) : Except Fault Key :=
  match Json.read t with
  | .error .malformed => .error .notJson
  | .error (.integerTooLong digits) => .error (.unusable (.integerTooLong digits))
  | .error .tooDeep => .error .tooDeep
  | .ok (.object (member :: members)) =>
    (member :: members).mapM fun entry => (KeyAttribute.ofJson entry.2).map (entry.1, ·)
  | .ok _ => .error (.unusable .cursorWithoutKey)

def decodeText (cursor : Text) : Except Fault Key :=
  let raw := cursor.strip
  if raw.isEmpty then .error (.unusable .cursorEmpty)
  else do keyOfJson (← content raw)

/-- The key of a cursor; a value that is no text counts by its plain form. -/
def decode (cursor : Value) : Except Fault Key :=
  if cursor.isTruthy then do decodeText (← cursor.plain) else decodeText []

end Cursor

end TableQuery
