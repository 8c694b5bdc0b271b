import ClusterPlan.Catalog.Table

/-!
# Clusters of tables and foreign keys
-/

namespace ClusterPlan.Catalog

/-- A cluster: tables that are stored interleaved, in the order of their ordinals. -/
structure Group where
  name : String
  tables : List Table
deriving DecidableEq

namespace Group

/-- The cluster of some tables. Tables with equal ordinals stay in the order in which they are given. -/
def ofTables (name : String) (tables : List Table) : Group :=
  ⟨name, tables.mergeSort fun a b => a.ordinal ≤ b.ordinal⟩

/-- The first table without a parent. -/
def root? (g : Group) : Option Table := g.tables.find? (·.parent?.isNone)

def contains (g : Group) (t : Table) : Bool := g.tables.any (·.same t)

end Group

/-- A foreign key that does not cluster its tables. It pairs a referencing column with a referenced one. -/
structure ForeignKey where
  name : String
  referencing : Table
  referenced : Table
  columns : List (String × String)
deriving DecidableEq

instance : Inhabited ForeignKey := ⟨⟨"", default, default, []⟩⟩

end ClusterPlan.Catalog
