import ClusterPlan.Format.Declarations
import ClusterPlan.Json.Serializer

/-!
# Types in JSON
-/

namespace ClusterPlan

def DataType.toJson (t : DataType) : Json := .ofValue t

def DataType.ofJson? (j : Json) : Option DataType := j.toValue? DataType

def TypeInstance.toJson (t : TypeInstance) : Json := .ofValue t

def TypeInstance.ofJson? (j : Json) : Option TypeInstance := j.toValue? TypeInstance

end ClusterPlan
