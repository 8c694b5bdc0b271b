import ClusterPlan.Context.Basic
import ClusterPlan.Expr.Basic
import ClusterPlan.Error
import ClusterPlan.Plan.JoinTree

/-!
# Editing plan nodes

Changes of what a node holds besides its inputs. Each of them leaves nodes of other kinds as they are.
-/

namespace ClusterPlan.Plan

/-! ## Joins -/

/-- Exchanges the inputs of a join, which needs a kind of join that has a counterpart. -/
def reverseJoin : Plan → Except PlanError Plan
  | binary id (.join op) left right operands =>
    match op.kind.reversed? with
    | some kind => .ok (binary id (.join { op with kind }) right left operands)
    | none => .error (.internal (.irreversibleJoin op.kind))
  | p => .ok p

/-- Changes the join of a node. -/
def editJoin (f : JoinOp → JoinOp) : Plan → Plan
  | binary id (.join op) left right operands => binary id (.join (f op)) left right operands
  | p => p

/-! ## Operands -/

/-- Changes the operands of a node that has a list of them. -/
def editOperands (f : List Expr → List Expr) : Plan → Plan
  | unary id op input operands => unary id op input (f operands)
  | binary id op left right operands => binary id op left right (f operands)
  | p => p

/-- Adds an operand behind the others. -/
def addOperand (e : Expr) (p : Plan) : Plan := p.editOperands (· ++ [e])

/-- Is the expression one of the comparisons with the given ids? -/
def isConsumed (consumed : List ConditionId) (e : Expr) : Bool := e.conditionId?.any (consumed.contains ·)

/-- Removes the comparisons with the given ids from the operands. -/
def removeConditions (consumed : List ConditionId) (p : Plan) : Plan :=
  p.editOperands (List.filter fun e => !isConsumed consumed e)

def setDistinctMethod (method : DistinctMethod) : Plan → Plan
  | unary id (.distinct _) input operands => unary id (.distinct (some method)) input operands
  | p => p

/-! ## Groups -/

/-- Changes the candidate scans of the joins of a group. -/
def editScans (f : List Plan → List Plan) : Plan → Plan
  | tableJoins id group input scans => tableJoins id group input (f scans)
  | p => p

/-- Changes the nodes of a join tree and their conditions. -/
def editTree (nodes : List JoinTreeNode → List JoinTreeNode) (conditions : List (List Expr) → List (List Expr)) :
    Plan → Plan
  | joinTree id group ns cs scan => joinTree id group (nodes ns) (conditions cs) scan
  | p => p

/-- Adds a child without conditions to a node of a join tree. -/
def addTreeChild (parent : Nat) (table : SourceId) (kind : JoinKind) (p : Plan) : Plan :=
  p.editTree (fun nodes => JoinTree.addChild nodes parent table kind) (· ++ [[]])

/-- Changes one node of a join tree. -/
def editTreeNode (i : Nat) (f : JoinTreeNode → JoinTreeNode) (p : Plan) : Plan :=
  p.editTree (fun nodes => nodes.modify i f) (fun conditions => conditions)

/-- Adds a condition to a node of a join tree. -/
def addTreeCondition (i : Nat) (e : Expr) (p : Plan) : Plan :=
  p.editTree (fun nodes => nodes) fun conditions => conditions.modify i (· ++ [e])

/-- Chooses the scan of a join tree. -/
def setTreeScan (p scan : Plan) : Plan :=
  match p with
  | joinTree id group nodes conditions _ => joinTree id group nodes conditions (some scan)
  | p => p

end ClusterPlan.Plan

namespace ClusterPlan

/-- The sources of a join tree that must have a row, in ascending order. -/
def JoinTree.requiredTables (ctx : Context) (nodes : List JoinTreeNode) : List SourceId :=
  ((tables nodes).filter fun s => (ctx.sources.get s).required).mergeSort (fun a b => a.index ≤ b.index) |>.eraseReps

/-- The values of the leaves of a join tree, whose nodes are accepted and valued together with their conditions. -/
def Plan.treeLeaves {α : Type} (p : Plan) (accept : JoinTreeNode × List Expr → Bool) (value : JoinTreeNode × List Expr → α) :
    List α :=
  match p with
  | joinTree _ _ nodes conditions _ => JoinTree.leavesOf nodes (nodes.zip conditions) accept value
  | _ => []

end ClusterPlan
