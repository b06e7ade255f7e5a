/- JSON values, with the members of an object in their order. -/

import TableQuery.Number.Decimal

set_option autoImplicit false
set_option relaxedAutoImplicit false

namespace TableQuery

/-- A JSON value. Whole numbers are kept apart from numbers with a point or an exponent. -/
inductive Json where
  | null
  | bool (b : Bool)
  | integer (n : Int)
  | number (x : Decimal)
  | text (t : Text)
  | array (items : List Json)
  | object (members : List (Text × Json))
  deriving Inhabited, Repr

namespace Json

/-- Adds a member; a name that is already there keeps its place and takes the new value. -/
def insertMember (name : Text) (value : Json) : List (Text × Json) → List (Text × Json)
  | [] => [(name, value)]
  | member :: rest =>
    if member.1 = name then (name, value) :: rest else member :: insertMember name value rest

def member? (members : List (Text × Json)) (name : Text) : Option Json :=
  (members.find? fun member => member.1 = name).map (·.2)

end Json

end TableQuery
