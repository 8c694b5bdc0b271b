import ClusterPlan.Catalog.Table

/-!
# Indexes

An index covers one table, or, as a group index, columns of a table and of tables above it.
-/

namespace ClusterPlan.Catalog

inductive IndexKind where
  | table
  | group
  | fullText
  | spatial
deriving DecidableEq

structure IndexColumn where
  table : Table
  column : String
  ascending : Bool
deriving DecidableEq

/-- Do two index columns name the same column of the same table in the same direction? -/
def IndexColumn.same (a b : IndexColumn) : Bool :=
  a.table.same b.table && a.column == b.column && a.ascending == b.ascending

/-- An index; `leafMost` is the deepest of its tables. -/
structure Index where
  name : String
  kind : IndexKind
  leafMost : Table
  columns : List IndexColumn
  unique : Bool
deriving DecidableEq

namespace Index

/-- The table nearest to the root among the tables of the columns, the first of several; an index without columns has its
deepest table. -/
def rootMost (x : Index) : Table :=
  match x.columns with
  | [] => x.leafMost
  | c :: cs => cs.foldl (fun best c => if c.table.depth < best.depth then c.table else best) c.table

/-- The direction of a column. Past the last column the direction is ascending. -/
def isAscendingAt (x : Index) (i : Nat) : Bool := (x.columns[i]?).all (·.ascending)

end Index

end ClusterPlan.Catalog
