/-!
The kinds of error that callers can tell apart, and the more general kinds that each belongs to.
-/

namespace LegacyImage

inductive ErrorKind
  | any
  | parse
  | unknownSize
  | unsupportedOperation
deriving DecidableEq, Repr

namespace ErrorKind

def all : List ErrorKind := [.any, .parse, .unknownSize, .unsupportedOperation]

def name : ErrorKind → String
  | .any => "Schema1Error"
  | .parse => "ParseError"
  | .unknownSize => "UnknownSizeError"
  | .unsupportedOperation => "UnsupportedOperationError"

/-- The names of the kinds right above. -/
def bases : ErrorKind → List String
  | .any => ["Exception"]
  | .parse => [name .any, "ValueError"]
  | .unknownSize => [name .any, "RuntimeError"]
  | .unsupportedOperation => [name .any, "NotImplementedError"]

end ErrorKind

def version : String := "0.1.0"

end LegacyImage
