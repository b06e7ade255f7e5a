/- The names that the package offers, with the modules in which they are defined. -/

import TableQuery.Text.Basic

set_option autoImplicit false
set_option relaxedAutoImplicit false

namespace TableQuery

/-- An offered name: its module, if it is defined in one, and whether the listing shows it. -/
structure Export where
  name : Text
  origin : Option Text
  listed : Bool
  deriving DecidableEq, Repr

namespace Export

def ofModule (origin : Text) (names : List Text) : List Export :=
  names.map fun name => { name, origin := some origin, listed := true }

def listing : List Export :=
  ofModule "dynaquery.table" ["Query", "Scan"] ++
  ofModule "dynaquery.backoff"
    ["BackoffPolicy", "ConstantBackoff", "ExponentialBackoff", "backoff_from_env",
      "max_retries_from_env"] ++
  ofModule "dynaquery.pipeline"
    ["BackoffStage", "Continue", "Done", "LimitStage", "Pipeline", "StartKeyStage"] ++
  ofModule "dynaquery.errors"
    ["AwsError", "ConfigurationError", "DynaqueryError", "NotFoundError",
      "ThrottleRetryExceededError", "ThrottlingError", "ValidationError"] ++
  ofModule "dynaquery.expressions"
    ["NamePlaceholders", "PlaceholderSequence", "ValuePlaceholders", "compile_conditions",
      "compile_projection"] ++
  ofModule "dynaquery.query" ["Page", "decode_cursor", "encode_cursor"] ++
  ofModule "dynaquery.request_builder"
    ["TableSchema", "build_query_request", "build_scan_request"] ++
  (["__repo_version__", "__version__"] : List Text).map
    (fun name => { name, origin := none, listed := true })

/-- Names outside the listing that are defined in a module: what the package makes use of, and what
every package has. -/
def unlistedOrigins : List (Text × Text) :=
  [("_read_repo_version", "dynaquery"), ("_normalize_repo_version", "dynaquery"),
    ("__getattr__", "dynaquery"), ("Any", "typing"), ("annotations", "__future__"),
    ("files", "importlib.resources._common"), ("__class__", "builtins"),
    ("__loader__", "_frozen_importlib_external"), ("__spec__", "_frozen_importlib")]

/-- The modules inside the package and those that it makes use of. -/
def modules : List Text :=
  ["aws_errors", "backoff", "errors", "expressions", "mocks", "pipeline", "query",
    "request_builder", "table", "testkit", "json", "re"]

/-- A mark for type checkers, and the fields that every package has. -/
def fieldNames : List Text :=
  ["TYPE_CHECKING", "__all__", "__annotations__", "__builtins__", "__cached__", "__dict__", "__doc__",
    "__file__", "__name__", "__package__", "__path__"]

def methodNames : List Text :=
  ["__delattr__", "__dir__", "__eq__", "__format__", "__ge__", "__getattribute__", "__getstate__",
    "__gt__", "__hash__", "__init__", "__init_subclass__", "__le__", "__lt__", "__ne__", "__new__",
    "__reduce__", "__reduce_ex__", "__repr__", "__setattr__", "__sizeof__", "__str__",
    "__subclasshook__"]

def unlisted (name : Text) (origin : Option Text) : Export := { name, origin, listed := false }

def all : List Export :=
  listing ++ unlistedOrigins.map (fun entry => unlisted entry.1 (some entry.2)) ++
    (modules ++ fieldNames ++ methodNames).map (unlisted · none)

def ofName? (name : Text) : Option Export := all.find? fun offered => offered.name = name

end Export

end TableQuery
