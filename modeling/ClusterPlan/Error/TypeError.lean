import ClusterPlan.DataType

/-!
# Failed conversions
-/

namespace ClusterPlan

/-- Why a constant has no value of another type. -/
inductive TypeError where
  | invalidLiteral (literal : String) (target : DataType)
  | incompatibleCast (source : String) (target : DataType)
deriving DecidableEq

/-- The text of a failed conversion. -/
def TypeError.message : TypeError → String
  | invalidLiteral literal target => "无效的字面量 '" ++ literal ++ "'，无法转换为 " ++ target.toText
  | incompatibleCast source target => "不兼容的类型转换: " ++ source ++ " -> " ++ target.toText

end ClusterPlan
