import ClusterPlan.Catalog.Group
import ClusterPlan.Snapshot.Value

/-!
# Snapshots of the catalog
-/

namespace ClusterPlan.Catalog

/-- The names of some tables. -/
def tableNames (tables : List Table) : Json := snapshotTexts (tables.map (·.name))

/-- Pairs of columns. -/
def columnPairs (columns : List (String × String)) : Json := .list (fun (a, b) => snapshotTexts [a, b]) columns

/-- For each pair of items the answer of a relation, in rows. -/
def relation {α : Type} (related : α → α → Bool) (xs : List α) : Json :=
  .list (fun x => .list (fun y => .bool (related x y)) xs) xs

def Column.snapshot (c : Column) : Json := .array [.text c.name, .nat c.position, c.type.snapshot]

def Join.snapshot (j : Join) : Json := .array [.text j.name, .text j.parent.name, columnPairs j.columns]

def Table.snapshot (t : Table) : Json :=
  .record [("id", .nat t.id.toNat), ("name", .text t.name), ("text", .text t.name), ("ordinal", .nat t.ordinal.toNat),
    ("depth", .nat t.depth), ("columns", .list Column.snapshot t.columns),
    ("join", .option Join.snapshot t.parentJoin?), ("parent", .option (fun p => .text p.name) t.parent?),
    ("ancestors", tableNames t.ancestors)]

/-- A cluster, with the keys of the tables that are in it. -/
def Group.snapshot (g : Group) (keys : List String) : Json :=
  .record [("name", .text g.name), ("tables", tableNames g.tables), ("root", .option (fun t => .text t.name) g.root?),
    ("contains", snapshotTexts keys)]

def IndexColumn.snapshot (c : IndexColumn) : Json := .array [.text c.table.name, .text c.column, .bool c.ascending]

def Index.snapshot (x : Index) : Json :=
  .record [("name", .text x.name), ("kind", .text (nameIn IndexKind.names x.kind)), ("unique", .bool x.unique),
    ("leaf", .text x.leafMost.name), ("root", .text x.rootMost.name),
    ("asc", .list .bool ((List.range (x.columns.length + 1)).map x.isAscendingAt)),
    ("columns", .list IndexColumn.snapshot x.columns), ("eq", relation IndexColumn.same x.columns)]

def ForeignKey.snapshot (k : ForeignKey) : Json :=
  .record [("name", .text k.name), ("referencing", .text k.referencing.name), ("referenced", .text k.referenced.name),
    ("columns", columnPairs k.columns)]

/-- How two tables stand to each other, and a column of the first one. -/
def Table.relationSnapshot (a b : Table) (column : Option String) : Json :=
  .record [("a_above_b", .bool (a.isAncestorOf b)), ("b_above_a", .bool (b.isAncestorOf a)), ("same", .bool (a.same b)),
    ("common", .option (fun t => .text t.name) (a.commonAncestor? b)),
    ("column", .option Column.snapshot (column.bind a.column?))]

end ClusterPlan.Catalog
