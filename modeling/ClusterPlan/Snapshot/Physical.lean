import ClusterPlan.Physical
import ClusterPlan.Snapshot.Catalog
import ClusterPlan.Snapshot.Error

/-!
# Snapshots of physical plans
-/

namespace ClusterPlan

def PhysicalPlan.snapshot (p : PhysicalPlan) : Json :=
  .record [("update", .bool p.isUpdate), ("summary", .text p.summary), ("explain", exceptSnapshot .text p.explain),
    ("operator", .text p.operator.name), ("params", snapshotTexts (p.parameters.map ParameterType.toText)),
    ("sql_types", snapshotTexts (p.parameters.map (·.sqlType.toText))),
    ("instances", .list (fun q => .option TypeInstance.snapshot q.typeInstance) p.parameters),
    ("fields", .list ResultField.snapshot p.fields), ("cost", .option Cost.snapshot p.cost),
    ("tables", Catalog.tableNames p.tables)]

/-- A plan, and for a change whether it gives back rows and whether it may be kept. -/
def PhysicalPlan.statementSnapshot (p : PhysicalPlan) : Json :=
  match p.kind with
  | .select => .record [("p", p.snapshot)]
  | .update returning cached => .record [("p", p.snapshot), ("returning", .bool returning), ("cache", .bool cached)]

end ClusterPlan
