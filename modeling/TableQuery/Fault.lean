/- What can go wrong, by cause.

   A refusal says why options, conditions or settings cannot be used. An unmet expectation comes from a
   scripted client. The service reports faults of its own, and values that do not have the expected
   form give the remaining ones. Each cause has one message; faults of a value alone have none. -/

import TableQuery.Value.Quoted
import TableQuery.Number.Precision

set_option autoImplicit false
set_option relaxedAutoImplicit false

namespace TableQuery

/-- Why options, conditions or settings are refused. Values are given by their quotations. -/
inductive Refusal where
  | tableUnnamed
  | hashKeyUnnamed
  | notPositive (option : Text)
  | literalUnsupported (quotation : Text)
  | cursorUnreadable
  | startKeyUnsupported
  | hashValueMissing
  | rangeKeyMissing
  | rangeKeyIsHashKey
  | rangeConditionsOnScan (names : List Text)
  | nameUnusable (quotation : Text)
  | conditionEmpty (quotation : Text)
  | operatorRefused (quotation operator : Text)
  | operatorUnknown (operator : Text)
  | betweenOperands (name : Text)
  | membershipOperand (name : Text)
  | membershipEmpty (name : Text)
  | membershipTooLarge
  | secondsNegative
  | baseSecondsNegative
  | maxSecondsBelowBase
  | ceilingNotPositive
  | retriesNegative
  | strategyUnknown (strategy : Text)
  | variableNotNumber (setting : Text)
  | variableNotInteger (setting : Text)
  | variableNegative (setting : Text)
  deriving Repr

namespace Refusal

def membershipLimit : Nat := 100

def message : Refusal → Text
  | .tableUnnamed => "table name is required"
  | .hashKeyUnnamed => "hash_key is required"
  | .notPositive option => option ++ " must be a positive integer"
  | .literalUnsupported quotation => "unsupported literal value: " ++ quotation
  | .cursorUnreadable => "invalid exclusive_start_key cursor"
  | .startKeyUnsupported => "exclusive_start_key must be a cursor string or a key map"
  | .hashValueMissing => "hash_value is required"
  | .rangeKeyMissing => "range conditions require a range key"
  | .rangeKeyIsHashKey => "range key must differ from hash key"
  | .rangeConditionsOnScan names =>
    "range conditions are not supported by scan: [" ++ Value.listed (names.map Text.quoted) ++ "]"
  | .nameUnusable quotation => "attribute name must be a non-empty string: " ++ quotation
  | .conditionEmpty quotation =>
    "condition for " ++ quotation ++ " must be a non-empty operator mapping"
  | .operatorRefused quotation operator =>
    "unsupported operator for " ++ quotation ++ ": " ++ operator
  | .operatorUnknown operator => "unsupported operator: " ++ operator
  | .betweenOperands name => "between on " ++ name.quoted ++ " requires exactly two operands"
  | .membershipOperand name => "in on " ++ name.quoted ++ " requires a sequence of values"
  | .membershipEmpty name => "in on " ++ name.quoted ++ " requires at least one value"
  | .membershipTooLarge => "in supports maximum " ++ Text.ofNat membershipLimit ++ " values"
  | .secondsNegative => "seconds must be >= 0"
  | .baseSecondsNegative => "base_seconds must be >= 0"
  | .maxSecondsBelowBase => "max_seconds must be >= base_seconds"
  | .ceilingNotPositive => "ceiling must be > 0"
  | .retriesNegative => "max_retries must be >= 0"
  | .strategyUnknown strategy => "unknown backoff strategy: " ++ strategy
  | .variableNotNumber setting => setting ++ " must be a number"
  | .variableNotInteger setting => setting ++ " must be an integer"
  | .variableNegative setting => setting ++ " must be >= 0"

end Refusal

/-- Why a triple of sign, digits and exponent is no decimal number. -/
inductive DigitTupleFault where
  | length
  | sign
  | special
  | exponent
  | coefficient
  deriving DecidableEq, Repr

namespace DigitTupleFault

def message : DigitTupleFault → Text
  | .length => "argument must be a sequence of length 3"
  | .sign => "sign must be an integer with the value 0 or 1"
  | .special => "string argument in the third position must be 'F', 'n' or 'N'"
  | .exponent => "exponent must be an integer"
  | .coefficient => "coefficient must be a tuple of digits"

end DigitTupleFault

/-- A value of the right kind whose content cannot be used. -/
inductive Unusable where
  | stemMissing
  | cursorEmpty
  | cursorWithoutKey
  | keyNotMap
  | keyValueNotSingle
  | keyValueNotText (kind : Text)
  | keyValueNotOctets
  | keyKindUnsupported (kind : Text)
  | notAscii
  | integerMalformed (quotation : Text)
  | integerTooLong (digits : Nat)
  | integerUnwritable
  | floatNotInteger
  | decimalNotInteger
  | entryLength (index length : Nat)
  | digitTuple (why : DigitTupleFault)
  deriving Repr

namespace Unusable

def message : Unusable → Text
  | .stemMissing => "prefix is required"
  | .cursorEmpty => "cursor is empty"
  | .cursorWithoutKey => "cursor must decode to a non-empty object"
  | .keyNotMap => "last_key must be a map"
  | .keyValueNotSingle => "key attribute value must be a single-key map"
  | .keyValueNotText kind => kind ++ " value must be a string"
  | .keyValueNotOctets => "B value must be bytes"
  | .keyKindUnsupported kind => "unsupported key attribute type: " ++ kind
  | .notAscii => "string argument should contain only ASCII characters"
  | .integerMalformed quotation => "invalid literal for int() with base 10: " ++ quotation
  | .integerTooLong digits =>
    "Exceeds the limit (4300 digits) for integer string conversion: value has " ++
      Text.ofNat digits ++ " digits; use sys.set_int_max_str_digits() to increase the limit"
  | .integerUnwritable =>
    "Exceeds the limit (4300 digits) for integer string conversion; use " ++
      "sys.set_int_max_str_digits() to increase the limit"
  | .floatNotInteger => "cannot convert float NaN to integer"
  | .decimalNotInteger => "cannot convert NaN to integer"
  | .digitTuple why => why.message
  | .entryLength index length =>
    "dictionary update sequence element #" ++ Text.ofNat index ++ " has length " ++
      Text.ofNat length ++ "; 2 is required"

end Unusable

/-- Why a call does not meet the script of a client. -/
inductive Unmet where
  | unexpectedCall (method : Text)
  | otherMethod (expected actual : Text)
  | difference (description : Text)
  | keyPresent (method key : Text)
  | rejected (keys : List Text)
  | pendingCalls (calls : List Text)
  | scriptExhausted
  deriving Repr

namespace Unmet

def message : Unmet → Text
  | .unexpectedCall method => "unexpected call: " ++ method
  | .otherMethod expected actual => "expected " ++ expected ++ ", got " ++ actual
  | .difference description => description
  | .keyPresent method key => method ++ ": unexpected key " ++ key.quoted
  | .rejected keys => "rejected: " ++ Text.joined "," keys
  | .pendingCalls calls => "pending expected calls: [" ++ Value.listed calls ++ "]"
  | .scriptExhausted => "script exhausted"

end Unmet

/-- An error answer of the service: the code and the message that it gives, if any, and the number of
retries that its client made when that was the most allowed. -/
structure ClientError where
  operation : Text
  code : Option Text
  description : Option Text
  retries : Option Text
  deriving DecidableEq, Repr

namespace ClientError

def message (error : ClientError) : Text :=
  "An error occurred (" ++ error.code.getD "Unknown" ++ ") when calling the " ++ error.operation ++
    " operation" ++
    (match error.retries with
      | some retries => " (reached max retries: " ++ retries ++ ")"
      | none => ([] : Text)) ++
    ": " ++ error.description.getD "Unknown"

end ClientError

/-- A fault ends an operation. -/
inductive Fault where
  | refused (why : Refusal)
  | throttled (code description : Text)
  | retriesExhausted (operation : Text) (attempts : Nat)
  | invalidRequest (description : Text)
  | notFound (description : Text)
  | service (code description : Text)
  | client (error : ClientError)
  | runtime (description : Text)
  | unmet (why : Unmet)
  | unusable (why : Unusable)
  | wrongKind
  | missingMember
  | missingKey
  | tooLarge
  | tooDeep
  | notBase64
  | notUtf8
  | notEncodable
  | notJson
  | signal (condition : Signal)
  deriving Repr

instance : Inhabited Fault := ⟨.wrongKind⟩

namespace Fault

def message? : Fault → Option Text
  | .refused why => some why.message
  | .throttled code description => some (code ++ ": " ++ description)
  | .retriesExhausted operation attempts =>
    some (operation ++ ": throttled, retry limit exceeded (attempts=" ++ Text.ofNat attempts ++ ")")
  | .invalidRequest description => some description
  | .notFound description => some description
  | .service code description => some (code ++ ": " ++ description)
  | .client error => some error.message
  | .runtime description => some description
  | .unmet why => some why.message
  | .unusable why => some why.message
  | .wrongKind | .missingMember | .missingKey | .tooLarge | .tooDeep | .notBase64 | .notUtf8
  | .notEncodable | .notJson | .signal _ => none

/-- Whether the fault says that a value has the wrong kind or unusable content. -/
def isContentFault : Fault → Bool
  | .unusable _ | .notBase64 | .notUtf8 | .notEncodable | .notJson => true
  | _ => false

end Fault

end TableQuery
