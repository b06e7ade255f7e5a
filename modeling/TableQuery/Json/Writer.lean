/- The compact form of a JSON value: no white space, and no escapes beyond those that JSON demands. -/

import TableQuery.Json.Basic

set_option autoImplicit false
set_option relaxedAutoImplicit false

namespace TableQuery.Json

/-- One code point inside a string: quote, backslash and control codes are escaped. -/
def escapedPoint (c : CodePoint) : Text :=
  let n := c.number
  if n = 0x22 then "\\\""
  else if n = 0x5C then "\\\\"
  else if n = 0x08 then "\\b"
  else if n = 0x09 then "\\t"
  else if n = 0x0A then "\\n"
  else if n = 0x0C then "\\f"
  else if n = 0x0D then "\\r"
  else if n < 0x20 then "\\u" ++ Text.hexadecimal 4 n
  else [c]

def writeText (t : Text) : Text := .char '"' :: t.flatMap escapedPoint ++ [.char '"']

mutual

def write : Json → Text
  | .null => "null"
  | .bool true => "true"
  | .bool false => "false"
  | .integer n => Text.ofInt n
  | .number x => x.text
  | .text t => writeText t
  | .array items => .char '[' :: writeItems items ++ [.char ']']
  | .object members => .char '\x7b' :: writeMembers members ++ [.char '\x7d']

def writeItems : List Json → Text
  | [] => []
  | [item] => item.write
  | item :: rest => item.write ++ .char ',' :: writeItems rest

def writeMembers : List (Text × Json) → Text
  | [] => []
  | [(name, value)] => writeText name ++ .char ':' :: value.write
  | (name, value) :: rest => writeText name ++ .char ':' :: value.write ++ .char ',' :: writeMembers rest

end

end TableQuery.Json
