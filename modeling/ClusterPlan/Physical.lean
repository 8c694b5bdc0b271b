import ClusterPlan.Catalog.Table
import ClusterPlan.Error
import ClusterPlan.Plan.Summary

/-!
# Physical plans

What the execution layer keeps of a statement: its operator, which is opaque but for an explanation, the types of the
parameters, the columns of the result, the cost and the tables that the statement touches.
-/

namespace ClusterPlan

/-- The type of a parameter, and its instance where one could be inferred. -/
structure ParameterType where
  sqlType : DataType
  typeInstance : Option TypeInstance

def ParameterType.toText (p : ParameterType) : String :=
  match p.typeInstance with
  | some t => t.toText
  | none => p.sqlType.toText

/-- An operator of the execution layer; the lines of its explanation, or why it has none. -/
structure PhysicalOperator where
  name : String
  explanation : Except String (List String)

/-- What becomes of the rows of a statement. -/
inductive StatementKind where
  | select
  | update (returning cached : Bool)
deriving DecidableEq

structure PhysicalPlan where
  kind : StatementKind
  operator : PhysicalOperator
  parameters : List ParameterType
  fields : List ResultField := []
  cost : Option Cost := none
  tables : List Catalog.Table := []

namespace PhysicalPlan

def isUpdate (p : PhysicalPlan) : Bool := p.kind != .select

/-- Notes a table that the statement touches, once. -/
def addTable (p : PhysicalPlan) (t : Catalog.Table) : PhysicalPlan :=
  if p.tables.any (·.same t) then p else { p with tables := p.tables ++ [t] }

/-- The parts of the details that are there. -/
def parts (p : PhysicalPlan) : List String :=
  (if p.parameters.isEmpty then [] else ["params = [" ++ commas (p.parameters.map ParameterType.toText) ++ "]"]) ++
  (if p.fields.isEmpty then [] else ["fields = [" ++ commas (p.fields.map (·.name)) ++ "]"]) ++
  (p.cost.map Cost.toText).toList

/-- The plan in one line. -/
def summary (p : PhysicalPlan) : String :=
  match p.kind with
  | .select => "PhysicalSelect(" ++ commas p.parts ++ ")"
  | .update returning _ =>
    let details := commas p.parts
    let details := if !returning then details else if details = "" then "RETURNING" else details ++ ", RETURNING"
    "PhysicalUpdate(" ++ details ++ ")"

/-- The summary and the lines of the operator's explanation, two spaces in. -/
def explain (p : PhysicalPlan) : Except PlanError String :=
  match p.operator.explanation with
  | .ok lines => .ok (p.summary ++ String.join (lines.map ("\n  " ++ ·)))
  | .error e => .error (.collaborator ("物理算子 " ++ p.operator.name ++ " explain 失败: " ++ e))

end PhysicalPlan

end ClusterPlan
