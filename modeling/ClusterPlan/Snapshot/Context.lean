import ClusterPlan.Snapshot.Value
import ClusterPlan.Context.Basic

/-!
# Snapshots of a context

All entities of a context by kind, each kind in the order in which its entities were added.
-/

namespace ClusterPlan

def TableTree.snapshot (t : TableTree) : Json :=
  .record [("group", .option (fun g => .text g.name) t.group), ("root", .option Ref.snapshot t.root),
    ("nodes", .list Ref.snapshot t.nodes)]

def TableNode.snapshot (n : TableNode) : Json :=
  .record [("tree", n.tree.snapshot), ("table", .text n.name), ("parent", .option Ref.snapshot n.parent),
    ("children", .list Ref.snapshot n.children), ("uses", .list Ref.snapshot n.uses)]

def TableSource.snapshot (s : TableSource) : Json :=
  .record [("node", s.node.snapshot), ("name", .text s.name), ("required", .bool s.required),
    ("group", .option Ref.snapshot s.group), ("parent_join", .option Ref.snapshot s.parentJoin)]

def TableGroup.snapshot (g : TableGroup) : Json :=
  .record [("tables", .list Ref.snapshot g.tables), ("joins", .list Ref.snapshot g.joins),
    ("merged_into", .option Ref.snapshot g.mergedInto)]

def GroupJoin.snapshot (j : GroupJoin) : Json :=
  .record [("group", j.group.snapshot), ("parent", j.parent.snapshot), ("child", j.child.snapshot),
    ("conds", .list ConditionId.snapshot j.conditions), ("join", .text j.join.name),
    ("rejected", .bool j.rejected)]

def KeyJoin.snapshot (j : KeyJoin) : Json :=
  .record [("parent", j.parent.snapshot), ("child", j.child.snapshot),
    ("conds", .list ConditionId.snapshot j.conditions), ("fk", .text j.foreignKey.name)]

def HashTable.snapshot (t : HashTable) : Json :=
  .record [("keys", .list (.option TypeInstance.snapshot) t.keyTypes), ("n", .nat t.keyTypes.length)]

def BloomFilter.snapshot (f : BloomFilter) : Json :=
  .record [("size", .nat f.estimatedSize.toNat), ("selectivity", f.selectivity.snapshot)]

def Arena.snapshot {kind : EntityKind} {α : Type} (f : α → Json) (a : Arena kind α) : Json := .list f a.items.toList

def Context.snapshot (ctx : Context) : Json :=
  .record [("trees", ctx.trees.snapshot TableTree.snapshot), ("nodes", ctx.nodes.snapshot TableNode.snapshot),
    ("sources", ctx.sources.snapshot TableSource.snapshot), ("groups", ctx.groups.snapshot TableGroup.snapshot),
    ("group_joins", ctx.groupJoins.snapshot GroupJoin.snapshot),
    ("fk_joins", ctx.keyJoins.snapshot KeyJoin.snapshot),
    ("hash_tables", ctx.hashTables.snapshot HashTable.snapshot),
    ("bloom_filters", ctx.bloomFilters.snapshot BloomFilter.snapshot)]

end ClusterPlan
