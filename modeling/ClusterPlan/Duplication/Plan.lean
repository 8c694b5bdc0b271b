import ClusterPlan.Duplication.Session
import ClusterPlan.Plan

/-!
# Copies of plans

A copy of a plan or an expression is made anew each time, and what it refers to is copied in the session. A column that
refers to a plan node refers to the number that stands for the node, wherever the node is met. The statement of a plan is
not copied.
-/

namespace ClusterPlan

open Duplication (source node group hashTable bloomFilter condition nodeNumber copyNumber)

def ColumnSource.copy : ColumnSource → Copying ColumnSource
  | table s => return .table (← source s)
  | node id => return .node (← nodeNumber id)

def LeafOp.copy : LeafOp → Copying LeafOp
  | tableSource s => return .tableSource (← source s)
  | groupScan g => return .groupScan (← group g)
  | nothing => pure .nothing

/-- Copies what a unary operator refers to. A statement is left without its text. -/
def UnaryOp.copy : UnaryOp → Copying UnaryOp
  | statement _ => pure (.statement none)
  | modify kind target => return .modify kind (← source target)
  | flatten nodes tables kinds => do
    let nodes ← nodes.mapM node
    let tables ← tables.mapM fun t => t.mapM source
    pure (.flatten nodes tables kinds)
  | ancestorLookup descendant ancestors tables => do
    let descendant ← node descendant
    let ancestors ← ancestors.mapM node
    let tables ← tables.mapM source
    pure (.ancestorLookup descendant ancestors tables)
  | branchLookup x ancestor branch tables => do
    let x ← node x
    let ancestor ← node ancestor
    let branch ← node branch
    let tables ← tables.mapM source
    pure (.branchLookup x ancestor branch tables)
  | op => pure op

/-- Copies what the inputs of a node share: the hash table or the filter that one of them fills for the other. -/
def BinaryOp.copyShared : BinaryOp → Copying BinaryOp
  | usingHashTable table => return .usingHashTable (← hashTable table)
  | usingBloomFilter filter => return .usingBloomFilter (← bloomFilter filter)
  | op => pure op

/-- Copies the joins of the context that a join stands for. -/
def BinaryOp.copyJoins : BinaryOp → Copying BinaryOp
  | join op => do
    let groupJoin ← op.groupJoin.mapM Duplication.groupJoin
    let keyJoin ← op.keyJoin.mapM Duplication.keyJoin
    pure (.join { op with groupJoin, keyJoin })
  | op => pure op

/-- Copies what every index scan refers to, once its id is used. -/
def ScanHead.copy (h : ScanHead) : Copying ScanHead := do
  let id ← copyNumber h.id
  let rootMost ← source h.rootMost
  let leafMost ← source h.leafMost
  let tables ← h.tables.mapM source
  let conditions ← h.conditions.mapM condition
  pure { h with id, rootMost, leafMost, tables, conditions }

mutual

def Expr.copy : Expr → Copying Expr
  | .constant value type => pure (.constant value type)
  | .parameter position type => pure (.parameter position type)
  | .column c => do
    let source ← c.source.copy
    pure (.column { c with source })
  | .cast operand type => return .cast (← operand.copy) type
  | .call f operands => return .call f (← Expr.copyAll operands)
  | .aggregate f none => pure (.aggregate f none)
  | .aggregate f (some operand) => return .aggregate f (some (← operand.copy))
  | .comparison c left right => do
    let id ← condition c.id
    let left ← left.copy
    let right ← right.copy
    pure (.comparison { c with id } left right)
  | .logical op operands => return .logical op (← Expr.copyAll operands)
  | .inList operand list => do
    let operand ← operand.copy
    let list ← Expr.copyAll list
    pure (.inList operand list)
  | .subquery kind plan type => return .subquery kind (← plan.copy) type
  | .special f operands => return .special f (← Expr.copyAll operands)

def Expr.copyAll : List Expr → Copying (List Expr)
  | [] => pure []
  | e :: es => do
    let e ← e.copy
    let es ← Expr.copyAll es
    pure (e :: es)

def Expr.copyRows : List (List Expr) → Copying (List (List Expr))
  | [] => pure []
  | row :: rows => do
    let row ← Expr.copyAll row
    let rows ← Expr.copyRows rows
    pure (row :: rows)

/-- Copies the conditions of a join tree, each node's table before its conditions. -/
def Expr.copyJoinTree : List JoinTreeNode → List (List Expr) → Copying (List JoinTreeNode × List (List Expr))
  | [], rows => return ([], ← Expr.copyRows rows)
  | n :: nodes, [] => do
    let table ← source n.table
    let (nodes, rows) ← Expr.copyJoinTree nodes []
    pure ({ n with table } :: nodes, rows)
  | n :: nodes, row :: rows => do
    let table ← source n.table
    let row ← Expr.copyAll row
    let (nodes, rows) ← Expr.copyJoinTree nodes rows
    pure ({ n with table } :: nodes, row :: rows)

/-- Copies the expressions of a scan and then gives it its id. -/
def Scan.copy : Scan → Copying Scan
  | .single head ⟨index, withUnions, ascending, ordering, equality, unions, low, high⟩ => do
    let ordering ← Expr.copyAll ordering
    let equality ← Expr.copyAll equality
    let unions ← Expr.copyRows unions
    let low ← match low with
      | some ⟨e, inclusive⟩ => (do return some ⟨← e.copy, inclusive⟩)
      | none => pure none
    let high ← match high with
      | some ⟨e, inclusive⟩ => (do return some ⟨← e.copy, inclusive⟩)
      | none => pure none
    let head ← head.copy
    pure (.single head ⟨index, withUnions, ascending, ordering, equality, unions, low, high⟩)
  | .intersect head n output selector => do
    let output ← output.copy
    let selector ← selector.copy
    let head ← head.copy
    pure (.intersect head n output selector)

/-- Copies a plan. Most nodes get their id before anything below them is copied. -/
def Plan.copy : Plan → Copying Plan
  | .leaf id op => do
    let id ← copyNumber id
    let op ← op.copy
    pure (.leaf id op)
  | .probe id (.groupLoop inside outside insideParent) operands => do
    let id ← copyNumber id
    let inside ← source inside
    let outside ← source outside
    let operands ← Expr.copyAll operands
    pure (.probe id (.groupLoop inside outside insideParent) operands)
  | .probe id (.hashLookup table tables) operands => do
    let id ← copyNumber id
    let table ← hashTable table
    let operands ← Expr.copyAll operands
    let tables ← tables.mapM source
    pure (.probe id (.hashLookup table tables) operands)
  | .values id rows => do
    let id ← copyNumber id
    let rows ← Expr.copyRows rows
    pure (.values id rows)
  | .unary id op input operands => do
    let id ← copyNumber id
    let input ← input.copy
    let op ← op.copy
    let operands ← Expr.copyAll operands
    pure (.unary id op input operands)
  | .binary id (.bloomFilterFilter filter) left right operands => do
    let id ← copyNumber id
    let left ← left.copy
    let filter ← bloomFilter filter
    let operands ← Expr.copyAll operands
    let right ← right.copy
    pure (.binary id (.bloomFilterFilter filter) left right operands)
  | .binary id op left right operands => do
    let id ← copyNumber id
    let op ← op.copyShared
    let left ← left.copy
    let right ← right.copy
    let operands ← Expr.copyAll operands
    let op ← op.copyJoins
    pure (.binary id op left right operands)
  | .aggregate id op phase input => do
    let phase ← match phase with
      | .bare groupBy => (do return .bare (← Expr.copyAll groupBy))
      | .resolved groupBy aggregates => (do
        let groupBy ← Expr.copyAll groupBy
        let aggregates ← Expr.copyAll aggregates
        pure (.resolved groupBy aggregates))
      | .split info => pure (.split info)
    let id ← copyNumber id
    let input ← input.copy
    let table ← op.table.mapM source
    pure (.aggregate id { op with table } phase input)
  | .tableJoins id g input scans => do
    let id ← copyNumber id
    let input ← input.copy
    let g ← group g
    let scans ← Plan.copyAll scans
    pure (.tableJoins id g input scans)
  | .joinTree id g nodes conditions scan => do
    let (nodes, conditions) ← Expr.copyJoinTree nodes conditions
    let id ← copyNumber id
    let g ← group g
    let scan ← match scan with
      | some scan => (do return some (← scan.copy))
      | none => pure none
    pure (.joinTree id g nodes conditions scan)
  | .indexScan s => return .indexScan (← s.copy)

def Plan.copyAll : List Plan → Copying (List Plan)
  | [] => pure []
  | p :: ps => do
    let p ← p.copy
    let ps ← Plan.copyAll ps
    pure (p :: ps)

end

end ClusterPlan
