import ClusterPlan.Plan.Operator

/-!
# Expressions, index scans and plans

The three are one family: a subquery is an expression that holds a plan, and plans and scans hold expressions. Every plan
node has an id. A few shapes of nodes carry all operators; `Plan.children` and `Plan.exprs` list the inputs and operands
of a node in the order in which everything walks them.
-/

namespace ClusterPlan

mutual

/-- An expression: an operand of a plan node or of another expression. -/
inductive Expr where
  | constant (value : Value) (type : TypeInstance)
  | parameter (position : Nat) (type : Option TypeInstance)
  | column (c : ColumnRef)
  | cast (operand : Expr) (type : TypeInstance)
  | call (f : FunctionHead) (operands : List Expr)
  | aggregate (f : AggregateHead) (operand : Option Expr)
  | comparison (c : ComparisonHead) (left right : Expr)
  | logical (op : LogicalOp) (operands : List Expr)
  | inList (operand : Expr) (list : List Expr)
  | subquery (kind : SubqueryKind) (plan : Plan) (type : Option TypeInstance)
  | special (f : SpecialFunction) (operands : List Expr)

/-- An access path: one index, or the rows of one scan that a second scan selects by comparing columns. -/
inductive Scan where
  | single (head : ScanHead) (scan : SingleScan Expr)
  | intersect (head : ScanHead) (columns : Nat) (output selector : Scan)

/-- A plan. -/
inductive Plan where
  | leaf (id : Int) (op : LeafOp)
  | probe (id : Int) (op : ProbeOp) (operands : List Expr)
  /-- Rows of expressions. -/
  | values (id : Int) (rows : List (List Expr))
  | unary (id : Int) (op : UnaryOp) (input : Plan) (operands : List Expr)
  | binary (id : Int) (op : BinaryOp) (left right : Plan) (operands : List Expr)
  | aggregate (id : Int) (op : AggregateOp) (phase : AggregatePhase Expr) (input : Plan)
  /-- The joins of one group before they are planned. The candidate scans are no part of the plan. -/
  | tableJoins (id : Int) (group : GroupId) (input : Plan) (scans : List Plan)
  /-- The join tree of a group: its nodes, the conditions of each node, and the scan that was chosen for it. -/
  | joinTree (id : Int) (group : GroupId) (nodes : List JoinTreeNode) (conditions : List (List Expr))
      (scan : Option Plan)
  | indexScan (scan : Scan)

end

instance : Inhabited Expr := ⟨.constant .null ⟨.null, true⟩⟩

instance : Inhabited Plan := ⟨.leaf 0 .nothing⟩

/-! ## Index scans -/

namespace Scan

def head : Scan → ScanHead
  | single head _ => head
  | intersect head _ _ _ => head

def id (s : Scan) : Int := s.head.id

def withHead (s : Scan) (f : ScanHead → ScanHead) : Scan :=
  match s with
  | single head x => single (f head) x
  | intersect head n a b => intersect (f head) n a b

/-- The scan of one index whose rows are read. -/
def output : Scan → SingleScan Expr
  | single _ x => x
  | intersect _ _ a _ => a.output

/-- The columns that equalities fix. -/
def equalityCount (s : Scan) : Nat := s.output.equalityCount

end Scan

/-- The comparands of a scan of one index. The columns that order it are not among them. -/
def SingleScan.comparands (s : SingleScan Expr) : List Expr :=
  s.equality ++ s.unions.flatten ++ (s.low.map (·.comparand)).toList ++ (s.high.map (·.comparand)).toList

/-- The comparands of a scan; those of the output of an intersection come first. -/
def Scan.comparands : Scan → List Expr
  | single _ x => x.comparands
  | intersect _ _ a b => a.comparands ++ b.comparands

/-! ## Plan nodes -/

/-- The expressions that an aggregation still holds. -/
def AggregatePhase.operands {ε : Type} : AggregatePhase ε → List ε
  | bare groupBy => groupBy
  | resolved groupBy aggregates => groupBy ++ aggregates
  | split _ => []

def LeafOp.name : LeafOp → String
  | tableSource _ => "TableSource"
  | groupScan _ => "GroupScan"
  | nothing => "NullSource"

def ProbeOp.name : ProbeOp → String
  | groupLoop _ _ _ => "GroupLoopScan"
  | hashLookup _ _ => "HashTableLookup"

def UnaryOp.name : UnaryOp → String
  | statement _ => "Ast"
  | query => "SelectQuery"
  | modify _ _ => "DmlStatement"
  | resultSet _ => "ResultSet"
  | subquery _ => "Subquery"
  | select => "Select"
  | project => "Project"
  | sort _ => "Sort"
  | limit _ _ => "Limit"
  | distinct _ => "Distinct"
  | flatten _ _ _ => "Flatten"
  | ancestorLookup _ _ _ => "AncestorLookup"
  | branchLookup _ _ _ _ => "BranchLookup"
  | subquerySource _ => "SubquerySource"

def BinaryOp.name : BinaryOp → String
  | join _ => "JoinNode"
  | mapJoin _ => "MapJoin"
  | union _ => "Union"
  | usingHashTable _ => "UsingHashTable"
  | usingBloomFilter _ => "UsingBloomFilter"
  | bloomFilterFilter _ => "BloomFilterFilter"

namespace Plan

def id : Plan → Int
  | leaf id _ | probe id _ _ | values id _ | unary id _ _ _ | binary id _ _ _ _ | aggregate id _ _ _
  | tableJoins id _ _ _ | joinTree id _ _ _ _ => id
  | indexScan s => s.id

/-- The name of a node in texts. -/
def name : Plan → String
  | leaf _ op => op.name
  | probe _ op _ => op.name
  | values _ _ => "ExpressionsSource"
  | unary _ op _ _ => op.name
  | binary _ op _ _ _ => op.name
  | aggregate _ _ _ _ => "AggregateSource"
  | tableJoins _ _ _ _ => "TableJoins"
  | joinTree _ _ _ _ _ => "TableGroupJoinTree"
  | indexScan _ => "IndexScan"

def isLeaf : Plan → Bool
  | leaf _ _ => true
  | _ => false

/-- The inputs of a node in the order of their slots. -/
def children : Plan → List Plan
  | leaf _ _ | probe _ _ _ | values _ _ | indexScan _ => []
  | unary _ _ input _ | aggregate _ _ _ input | tableJoins _ _ input _ => [input]
  | binary _ _ left right _ => [left, right]
  | joinTree _ _ _ _ scan => scan.toList

/-- The operands of a node in the order of their slots. -/
def exprs : Plan → List Expr
  | leaf _ _ | tableJoins _ _ _ _ => []
  | probe _ _ operands | unary _ _ _ operands | binary _ _ _ _ operands => operands
  | values _ rows => rows.flatten
  | aggregate _ _ phase _ => phase.operands
  | joinTree _ _ _ conditions _ => conditions.flatten
  | indexScan s => s.comparands

/-- The scan of a node that is an index scan. -/
def scan? : Plan → Option Scan
  | indexScan s => some s
  | _ => none

/-- The join of a node that is one. -/
def join? : Plan → Option JoinOp
  | binary _ (.join op) _ _ _ => some op
  | _ => none

/-- The single input of a node that has one. -/
def input? : Plan → Option Plan
  | unary _ _ input _ | aggregate _ _ _ input | tableJoins _ _ input _ => some input
  | _ => none

/-- Puts another input in place of a node's single one, which comes back. -/
def setInput? (p new : Plan) : Option (Plan × Plan) :=
  match p with
  | unary id op input operands => some (input, unary id op new operands)
  | aggregate id op phase input => some (input, aggregate id op phase new)
  | tableJoins id group input scans => some (input, tableJoins id group new scans)
  | binary id (.bloomFilterFilter filter) left right operands =>
    some (left, binary id (.bloomFilterFilter filter) new right operands)
  | _ => none

/-- Puts another left input in place, which comes back. -/
def setLeft? (p new : Plan) : Option (Plan × Plan) :=
  match p with
  | binary id op left right operands => some (left, binary id op new right operands)
  | _ => none

/-- Puts another right input in place, which comes back. -/
def setRight? (p new : Plan) : Option (Plan × Plan) :=
  match p with
  | binary id op left right operands => some (right, binary id op left new operands)
  | _ => none

/-- Puts a plan in place of the first input with a given id, which comes back. Nothing changes if there is none. -/
def replaceInput? (p : Plan) (old : Int) (new : Plan) : Option (Plan × Plan) :=
  match p with
  | unary id op input operands =>
    if input.id = old then some (input, unary id op new operands) else none
  | binary id op left right operands =>
    if left.id = old then some (left, binary id op new right operands)
    else if right.id = old then some (right, binary id op left new operands)
    else none
  | aggregate id op phase input =>
    if input.id = old then some (input, aggregate id op phase new) else none
  | tableJoins id group input scans =>
    if input.id = old then some (input, tableJoins id group new scans) else none
  | joinTree id group nodes conditions (some scan) =>
    if scan.id = old then some (scan, joinTree id group nodes conditions (some new)) else none
  | _ => none

end Plan

end ClusterPlan
