namespace Listing

inductive Failure
  | unsupportedOperator (code : String)
  | unknownRelation (owner relation : String)
  | rowCount (reason : String)
  | invalidSettings {reason : String}
  deriving DecidableEq

namespace Failure

def message : Failure → String
  | .unsupportedOperator code => "Not allowed operator: " ++ code
  | .unknownRelation owner relation => "Unknown relation " ++ relation ++ " on " ++ owner
  | .rowCount reason => "Row count failed: " ++ reason
  | @invalidSettings reason => "Invalid configuration: " ++ reason

def isBadRequest : Failure → Bool
  | .unsupportedOperator _ => true
  | _ => false

end Failure

end Listing
