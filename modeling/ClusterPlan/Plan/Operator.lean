import ClusterPlan.Catalog.Index
import ClusterPlan.Cost
import ClusterPlan.Expr.Head
import ClusterPlan.JoinKind

/-!
# What a plan node holds besides its inputs and operands
-/

namespace ClusterPlan

/-- A node without inputs and operands. -/
inductive LeafOp where
  | tableSource (source : SourceId)
  | groupScan (group : GroupId)
  /-- Yields no rows. -/
  | nothing
deriving DecidableEq

/-- A node without inputs whose rows depend on operands. -/
inductive ProbeOp where
  /-- Scans one table of a group near the rows that an outer loop binds; is it above or below the table of those rows? -/
  | groupLoop (inside outside : SourceId) (insideParent : Bool)
  /-- Reads the rows of a hash table by key. -/
  | hashLookup (table : HashTableId) (tables : List SourceId)
deriving DecidableEq

inductive ModifyKind where
  | insert
  | update
  | delete
deriving DecidableEq

def ModifyKind.toText : ModifyKind → String
  | insert => "INSERT"
  | update => "UPDATE"
  | delete => "DELETE"

/-- A column of a result. -/
structure ResultField where
  name : String
  type : Option TypeInstance
deriving DecidableEq

inductive DistinctMethod where
  | presorted
  | explicitSort
deriving DecidableEq

def DistinctMethod.toText : DistinctMethod → String
  | presorted => "PRESORTED"
  | explicitSort => "EXPLICIT_SORT"

/-- A node with one input. Operators that take no operands have an empty list of them. -/
inductive UnaryOp where
  /-- The root of a statement, with its text where it is the first plan of the statement; the operands are its parameters. -/
  | statement (sql : Option String)
  /-- A query; the operands are the conditions of its WHERE clause. -/
  | query
  /-- A change of a table; the operands are what it returns. -/
  | modify (kind : ModifyKind) (target : SourceId)
  | resultSet (fields : List ResultField)
  /-- The root of a subquery and the number of columns in it that refer outside. -/
  | subquery (outer : Nat)
  | select
  | project
  /-- A sort by the operands, each in its direction. -/
  | sort (ascending : List Bool)
  | limit (count skip : Option UInt64)
  | distinct (method : Option DistinctMethod)
  /-- Rows of a hierarchy side by side. A place without a source only locates the rows of its table. -/
  | flatten (nodes : List NodeId) (tables : List (Option SourceId)) (kinds : List JoinKind)
  | ancestorLookup (descendant : NodeId) (ancestors : List NodeId) (tables : List SourceId)
  | branchLookup (source ancestor branch : NodeId) (tables : List SourceId)
  | subquerySource (name : String)
deriving DecidableEq

inductive JoinMethod where
  | nestedLoops
  | hashTable
  | bloomFilter
  | merge
deriving DecidableEq

def JoinMethod.toText : JoinMethod → String
  | nestedLoops => "NESTED_LOOPS"
  | hashTable => "HASH_TABLE"
  | bloomFilter => "BLOOM_FILTER"
  | merge => "MERGE"

structure JoinOp where
  kind : JoinKind
  method : Option JoinMethod := none
  groupJoin : Option GroupJoinId := none
  keyJoin : Option KeyJoinId := none
deriving DecidableEq

/-- A node with two inputs. -/
inductive BinaryOp where
  | join (op : JoinOp)
  /-- The right input runs once for each row of the left one. -/
  | mapJoin (kind : JoinKind)
  | union (all : Bool)
  /-- The left input fills the hash table for the right one; the operands are the keys. -/
  | usingHashTable (table : HashTableId)
  | usingBloomFilter (filter : BloomFilterId)
  /-- Rows of the left input that pass the filter are checked by the right input. -/
  | bloomFilterFilter (filter : BloomFilterId)
deriving DecidableEq

inductive AggregateMethod where
  | presorted
  | preaggregateResort
  | sort
  | hash
  | tree
  | ungrouped
  | countStar
  | countTableStatus
  | firstFromIndex
deriving DecidableEq

namespace AggregateMethod

def all : List AggregateMethod :=
  [presorted, preaggregateResort, sort, hash, tree, ungrouped, countStar, countTableStatus, firstFromIndex]

def toText : AggregateMethod → String
  | presorted => "PRESORTED"
  | preaggregateResort => "PREAGGREGATE_RESORT"
  | sort => "SORT"
  | hash => "HASH"
  | tree => "TREE"
  | ungrouped => "UNGROUPED"
  | countStar => "COUNT_STAR"
  | countTableStatus => "COUNT_TABLE_STATUS"
  | firstFromIndex => "FIRST_FROM_INDEX"

end AggregateMethod

/-- What is left of the aggregates once their operands are split off: three lists in step. -/
structure SplitAggregates where
  groupBy : Nat
  functions : List String
  overloads : List (Option Overload)
  options : List (Option String)
deriving DecidableEq

/-- The life of an aggregation: grouping expressions, then aggregates behind them, then only functions. -/
inductive AggregatePhase (ε : Type) where
  | bare (groupBy : List ε)
  | resolved (groupBy aggregates : List ε)
  | split (info : SplitAggregates)

/-- The method of an aggregation, and the table whose row count it reads if that is the method. -/
structure AggregateOp where
  method : Option AggregateMethod := none
  table : Option SourceId := none
deriving DecidableEq

/-- A node of a join tree besides its conditions: its table, the join to its parent and the places of its parent, of its first
child and of the next child of its parent. -/
structure JoinTreeNode where
  table : SourceId
  parent : Option Nat := none
  firstChild : Option Nat := none
  nextSibling : Option Nat := none
  kind : JoinKind := .inner
  state : Int := 0
deriving DecidableEq

/-- How far the order of a scan meets a required order. -/
inductive OrderEffectiveness where
  | none
  | partialGrouped
  | grouped
  | sorted
  | forMinMax
deriving DecidableEq

namespace OrderEffectiveness

instance : Inhabited OrderEffectiveness := ⟨none⟩

def all : List OrderEffectiveness := [none, partialGrouped, grouped, sorted, forMinMax]

/-- The place in the order from the least to the most effective. -/
def rank : OrderEffectiveness → Nat
  | none => 0
  | partialGrouped => 1
  | grouped => 2
  | sorted => 3
  | forMinMax => 4

def toText : OrderEffectiveness → String
  | none => "NONE"
  | partialGrouped => "PARTIAL_GROUPED"
  | grouped => "GROUPED"
  | sorted => "SORTED"
  | forMinMax => "FOR_MIN_MAX"

end OrderEffectiveness

/-- One end of a range. -/
structure Bound (ε : Type) where
  comparand : ε
  inclusive : Bool

/-- A scan of one index. Its columns are compared with the equality comparands, then with the alternatives of disjunctions,
then at most one with a range; `ordering` and `ascending` are all columns with their directions. -/
structure SingleScan (ε : Type) where
  index : Catalog.Index
  includeUnion : Bool
  ascending : List Bool
  ordering : List ε
  equality : List ε := []
  unions : List (List ε) := []
  low : Option (Bound ε) := none
  high : Option (Bound ε) := none

/-- The columns that equalities fix; the disjunctions count if they are included. -/
def SingleScan.equalityCount {ε : Type} (s : SingleScan ε) : Nat :=
  if s.includeUnion then s.equality.length + s.unions.length else s.equality.length

/-- What every index scan has: the sources at the two ends of its hierarchy and all that it covers, the conditions that it
consumes, and what is known of its order and cost. -/
structure ScanHead where
  id : Int
  rootMost : SourceId
  leafMost : SourceId
  tables : List SourceId
  conditions : List ConditionId := []
  order : OrderEffectiveness := .none
  reverse : Bool := false
  covering : Bool := false
  cost : Option Cost := none
deriving DecidableEq

end ClusterPlan
