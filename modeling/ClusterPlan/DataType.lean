/-!
# Types of the query language

A type instance is a data type that admits nulls or not. The planner keeps instances and resolved functions and does not
interpret them further.
-/

namespace ClusterPlan

inductive DataType where
  | null
  | boolean
  | int
  | bigInt
  | double
  | decimal (precision scale : UInt8)
  | varchar (length : UInt32)
  | date
  | timestamp
deriving DecidableEq

namespace DataType

def isNumeric : DataType → Bool
  | int | bigInt | double | decimal _ _ => true
  | _ => false

def toText : DataType → String
  | null => "NULL"
  | boolean => "BOOLEAN"
  | int => "INT"
  | bigInt => "BIGINT"
  | double => "DOUBLE"
  | decimal precision scale => "DECIMAL(" ++ toString precision.toNat ++ ", " ++ toString scale.toNat ++ ")"
  | varchar length => "VARCHAR(" ++ toString length.toNat ++ ")"
  | date => "DATE"
  | timestamp => "TIMESTAMP"

end DataType

/-- A data type together with the answer whether nulls are among its values. -/
structure TypeInstance where
  dataType : DataType
  nullable : Bool
deriving DecidableEq

namespace TypeInstance

def withNull (t : DataType) : TypeInstance := ⟨t, true⟩

def notNull (t : DataType) : TypeInstance := ⟨t, false⟩

def toText (t : TypeInstance) : String :=
  t.dataType.toText ++ if t.nullable then " NULL" else " NOT NULL"

end TypeInstance

/-- A function chosen among those of one name, with the type of its result. -/
structure Overload where
  name : String
  result : TypeInstance
deriving DecidableEq

end ClusterPlan
