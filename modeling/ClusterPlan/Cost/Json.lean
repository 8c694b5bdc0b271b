import ClusterPlan.Cost
import ClusterPlan.Json.Record

/-!
# Cost estimates in JSON
-/

namespace ClusterPlan.Cost

def ofJson? (j : Json) : Option Cost := do
  let [rows, amount] ← j.fields? ["row_count", "cost"] | none
  let rows ← rows.required (Json.natBelow? UInt64.size)
  return ⟨.ofNat rows, ← amount.required Json.real?⟩

end ClusterPlan.Cost
