import ClusterPlan.DataType
import ClusterPlan.Error.Code
import ClusterPlan.Format.Datum

/-!
# Declarations of types and errors
-/

namespace ClusterPlan

namespace DataType

/-- The data types without content, by name. -/
def plain : List (String × DataType) :=
  [("Null", null), ("Boolean", boolean), ("Int", int), ("BigInt", bigInt), ("Double", double), ("Date", date),
    ("Timestamp", timestamp)]

instance : Declared DataType where
  shape := .choice (plain.map (·.1))
    [("Decimal", .record [("precision", Declared.shape UInt8), ("scale", Declared.shape UInt8)]), ("Varchar", Declared.shape UInt32)]
  datum
    | decimal precision scale =>
      .filled "Decimal" (.record [("precision", Declared.datum precision), ("scale", Declared.datum scale)])
    | varchar length => .filled "Varchar" (Declared.datum length)
    | null => .plain "Null"
    | boolean => .plain "Boolean"
    | int => .plain "Int"
    | bigInt => .plain "BigInt"
    | double => .plain "Double"
    | date => .plain "Date"
    | timestamp => .plain "Timestamp"
  ofDatum?
    | .plain name => plain.lookup name
    | .filled _ (.record [(_, precision), (_, scale)]) => do
      return decimal (← Declared.ofDatum? precision) (← Declared.ofDatum? scale)
    | .filled _ length => (Declared.ofDatum? length).map varchar
    | _ => none

end DataType

instance : Declared TypeInstance where
  shape := .record [("data_type", Declared.shape DataType), ("nullable", Declared.shape Bool)]
  datum t := .record [("data_type", Declared.datum t.dataType), ("nullable", Declared.datum t.nullable)]
  ofDatum?
    | .record [(_, dataType), (_, nullable)] => do return ⟨← Declared.ofDatum? dataType, ← Declared.ofDatum? nullable⟩
    | _ => none

instance : Declared ErrorCode where
  shape := .choice (ErrorCode.all.map ErrorCode.name) []
  datum c := .plain c.name
  ofDatum?
    | .plain name => ErrorCode.all.find? fun c => c.name == name
    | _ => none

instance : Declared PublicError where
  shape := .record [("code", Declared.shape ErrorCode), ("message", Declared.shape String)]
  datum e := .record [("code", Declared.datum e.code), ("message", Declared.datum e.message)]
  ofDatum?
    | .record [(_, code), (_, message)] => do return ⟨← Declared.ofDatum? code, ← Declared.ofDatum? message⟩
    | _ => none

end ClusterPlan
