import ClusterPlan.DataType

/-!
# Catalog tables

A table is the root of a cluster or stored beneath its parent table, to which a grouping key joins it. The chain of parents
is finite by construction. `Table.isAncestorOf` is the order of the hierarchy, `Table.ancestors` the chain from the root
down to a table, `Table.commonAncestor?` the deepest table that two chains share.
-/

namespace ClusterPlan.Catalog

structure Column where
  name : String
  position : Nat
  type : TypeInstance
deriving DecidableEq

/-- What a table has besides its place in the hierarchy. The ordinal numbers the tables of a cluster in storage order. -/
structure TableInfo where
  id : UInt32
  name : String
  ordinal : UInt32
  columns : List Column
deriving DecidableEq

/-- A table with the chain of its parents. -/
inductive Table where
  | root (info : TableInfo)
  /-- The key pairs a column of the parent with a column of the table. -/
  | child (info : TableInfo) (key : List (String × String)) (parent : Table)
deriving DecidableEq

/-- The grouping key that joins a table to its parent. -/
structure Join where
  name : String
  parent : Table
  columns : List (String × String)
deriving DecidableEq

namespace Table

instance : Inhabited Table := ⟨root ⟨0, "", 0, []⟩⟩

def info : Table → TableInfo
  | root info => info
  | child info _ _ => info

def id (t : Table) : UInt32 := t.info.id

def name (t : Table) : String := t.info.name

def ordinal (t : Table) : UInt32 := t.info.ordinal

def columns (t : Table) : List Column := t.info.columns

def column? (t : Table) (name : String) : Option Column := t.columns.find? (·.name == name)

def parent? : Table → Option Table
  | root _ => none
  | child _ _ parent => some parent

/-- The join to the parent, named after the two tables. -/
def parentJoin? : Table → Option Join
  | root _ => none
  | child info key parent => some ⟨parent.name ++ "_" ++ info.name, parent, key⟩

/-- How many parents lie above a table. -/
def depth : Table → Nat
  | root _ => 0
  | child _ _ parent => parent.depth + 1

/-- The chain of parents from the root down to the table itself. -/
def ancestors : Table → List Table
  | root info => [root info]
  | child info key parent => parent.ancestors ++ [child info key parent]

/-- Do two tables have the same identity? Everything else about them may differ. -/
def same (a b : Table) : Bool := a.id == b.id

/-- Is `a` the table `b` itself or one of its parents? -/
def isAncestorOf (a : Table) : Table → Bool
  | root info => a.id == info.id
  | child info _ parent => a.id == info.id || a.isAncestorOf parent

/-- The deepest table at which the chains of two tables still agree. -/
def commonAncestor? (a b : Table) : Option Table :=
  (((a.ancestors.zip b.ancestors).takeWhile fun (x, y) => x.same y).getLast?).map (·.1)

end Table

end ClusterPlan.Catalog
