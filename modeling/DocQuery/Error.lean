/-! # Errors of the client -/
namespace DocQuery

inductive Error where
  | missingArgument (what : String)
  | malformedChain (reason : String)
  | unknownComparator (reason : String)
  | invalidLimit (reason : String)
  | missingCollectionName
  | invalidUrl (reason : String)
  | serialization (reason : String)
  | malformedResponse (reason : String)
  | transport (reason : String)
  | remote (status : UInt16) (reason : String)
  deriving DecidableEq

namespace Error

def message : Error → String
  | missingArgument what => "Missing argument: " ++ what
  | malformedChain reason => "Malformed attribute chain: " ++ reason
  | unknownComparator reason => "Unknown comparator: " ++ reason
  | invalidLimit reason => "Invalid limit: " ++ reason
  | missingCollectionName => "Missing collection name"
  | invalidUrl reason => "Invalid URL: " ++ reason
  | serialization reason => "Serialization error: " ++ reason
  | malformedResponse reason => "Malformed response: " ++ reason
  | transport reason => "Transport error: " ++ reason
  | remote status reason => s!"Remote error ({status}): {reason}"

def isValidation : Error → Bool
  | missingArgument _ | malformedChain _ | unknownComparator _ | invalidLimit _
  | missingCollectionName | invalidUrl _ => true
  | serialization _ | malformedResponse _ | transport _ | remote _ _ => false

end Error

end DocQuery
