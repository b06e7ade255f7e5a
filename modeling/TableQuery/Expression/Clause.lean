/- Clauses of condition expressions and their text. -/

import TableQuery.Condition.Operator

set_option autoImplicit false
set_option relaxedAutoImplicit false

namespace TableQuery

/-- A clause demands something of one attribute. Attribute and operands are given by their tokens. -/
inductive Clause where
  | compares (name : Text) (comparison : Comparison) (operand : Text)
  | beginsWith (name operand : Text)
  | between (name low high : Text)
  | membership (name : Text) (operands : List Text)
  | contains (name operand : Text)
  | lacks (name operand : Text)
  | absent (name : Text)
  | present (name : Text)
  deriving DecidableEq, Repr

namespace Clause

def render : Clause → Text
  | .compares name comparison operand => name ++ " " ++ comparison.sign ++ " " ++ operand
  | .beginsWith name operand => "begins_with(" ++ name ++ ", " ++ operand ++ ")"
  | .between name low high => name ++ " BETWEEN " ++ low ++ " AND " ++ high
  | .membership name operands => name ++ " IN (" ++ Text.joined ", " operands ++ ")"
  | .contains name operand => "contains(" ++ name ++ ", " ++ operand ++ ")"
  | .lacks name operand => "NOT contains(" ++ name ++ ", " ++ operand ++ ")"
  | .absent name => "attribute_not_exists(" ++ name ++ ")"
  | .present name => "attribute_exists(" ++ name ++ ")"

def renderAll (clauses : List Clause) : Text := Text.joined " AND " (clauses.map render)

end Clause

end TableQuery
