import ClusterPlan.Format.Declarations
import ClusterPlan.Json.Serializer

/-!
# Errors in JSON
-/

namespace ClusterPlan

def ErrorCode.toJson (c : ErrorCode) : Json := .ofValue c

def ErrorCode.ofJson? (j : Json) : Option ErrorCode := j.toValue? ErrorCode

def PublicError.toJson (e : PublicError) : Json := .ofValue e

def PublicError.ofJson? (j : Json) : Option PublicError := j.toValue? PublicError

end ClusterPlan
