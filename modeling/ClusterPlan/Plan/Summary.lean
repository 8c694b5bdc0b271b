import ClusterPlan.Plan.Aggregation
import ClusterPlan.Plan.JoinTree
import ClusterPlan.Scan.Construction

/-!
# The summary of a node

A node is shown as its name with details in brackets. Names of sources and tables come from the context.
-/

namespace ClusterPlan

/-- Texts with commas between them. -/
def commas (texts : List String) : String := ", ".intercalate texts

def Bound.toText (op : Bool → String) (b : Bound Expr) : String := op b.inclusive ++ " " ++ b.comparand.toText

/-- The comparands of a scan of one index. -/
def SingleScan.details (s : SingleScan Expr) : String :=
  commas <|
    ["Index(" ++ s.index.name ++ ")"] ++
    (if s.equality.isEmpty then [] else ["=" ++ Expr.listText s.equality]) ++
    s.unions.map (fun es => "UNION[" ++ Expr.listText es ++ "]") ++
    (s.low.map (Bound.toText fun inclusive => if inclusive then ">=" else ">")).toList ++
    (s.high.map (Bound.toText fun inclusive => if inclusive then "<=" else "<")).toList

/-- What is known of the order and cost of a scan. -/
def ScanHead.details (h : ScanHead) : String :=
  (if h.reverse then ", REVERSED" else "") ++
  (if h.order = .none then "" else ", " ++ h.order.toText) ++
  (if h.covering then ", covering" else "") ++
  (match h.cost with
    | some cost => ", " ++ cost.toText
    | none => "")

def Scan.details : Scan → String
  | .single head s => s.details ++ head.details
  | .intersect head n output selector =>
    "INTERSECT(compare " ++ toString n ++ ", " ++ output.details ++ " AND " ++ selector.details ++ ")" ++ head.details

namespace LeafOp

def details (ctx : Context) : LeafOp → String
  | tableSource s =>
    let name := ctx.sourceName s
    let table := (ctx.tableOf s).name
    if name = table then name else table ++ " AS " ++ name
  | groupScan g =>
    match (ctx.groups.get g).tables with
    | root :: _ => (ctx.tableOf root).name
    | [] => g.toText
  | nothing => ""

end LeafOp

namespace ProbeOp

def details (ctx : Context) (operands : List Expr) : ProbeOp → String
  | groupLoop inside outside insideParent =>
    ctx.sourceName inside ++ (if insideParent then " <- " else " -> ") ++ ctx.sourceName outside ++
      if operands.isEmpty then "" else ", " ++ Expr.listText operands
  | hashLookup table _ => table.toText ++ ", [" ++ Expr.listText operands ++ "]"

end ProbeOp

namespace UnaryOp

/-- Rows side by side: each place but the first behind the join to the place before it, which is an inner join if none is
given. A place without a source shows the key of its table. -/
def flattenDetails (ctx : Context) (kinds : List JoinKind) (tables : List (Option SourceId)) (nodes : List NodeId) :
    String :=
  String.join <| nodes.zipIdx.map fun (node, i) =>
    (if i = 0 then "" else " " ++ (kinds[i - 1]?.getD .inner).toText ++ " ") ++
    match tables[i]? with
    | some (some source) => ctx.sourceName source
    | _ => "HKEY(" ++ ctx.nodeName node ++ ")"

def details (ctx : Context) (operands : List Expr) : UnaryOp → String
  | statement sql => sql.getD ""
  | query | select | project => Expr.listText operands
  | modify kind target =>
    kind.toText ++ " " ++ ctx.sourceName target ++
      if operands.isEmpty then "" else " RETURNING " ++ Expr.listText operands
  | resultSet fields => commas (fields.map (·.name))
  | subquery outer => if outer = 0 then "" else "correlated, " ++ toString outer ++ " outer"
  | sort ascending =>
    commas ((operands.zip ascending).map fun (e, up) => e.toText ++ if up then " ASC" else " DESC")
  | limit count skip =>
    " ".intercalate <|
      (skip.map fun n => "OFFSET " ++ toString n.toNat).toList ++ (count.map fun n => "LIMIT " ++ toString n.toNat).toList
  | distinct method => (method.map DistinctMethod.toText).getD ""
  | flatten nodes tables kinds => flattenDetails ctx kinds tables nodes
  | ancestorLookup descendant ancestors _ =>
    ctx.nodeName descendant ++ " -> [" ++ commas (ancestors.map ctx.nodeName) ++ "]"
  | branchLookup source ancestor branch _ =>
    ctx.nodeName source ++ (if source = ancestor then "" else " -> " ++ ctx.nodeName ancestor) ++ " -> " ++
      ctx.nodeName branch
  | subquerySource name => name

end UnaryOp

namespace BinaryOp

def details (ctx : Context) (operands : List Expr) : BinaryOp → String
  | join op =>
    op.kind.toText ++ (match op.method with
      | some method => "/" ++ method.toText
      | none => "") ++
      if operands.isEmpty then "" else "[" ++ Expr.listText operands ++ "]"
  | mapJoin kind => kind.toText
  | union all => if all then "ALL" else ""
  | usingHashTable table => table.toText ++ ", [" ++ Expr.listText operands ++ "]"
  | usingBloomFilter filter =>
    filter.toText ++ ", size = " ++ toString (ctx.bloomFilters.get filter).estimatedSize.toNat
  | bloomFilterFilter filter => filter.toText ++ ", [" ++ Expr.listText operands ++ "]"

end BinaryOp

/-- The method, the grouping expressions, the aggregates and the table of an aggregation. -/
def aggregateDetails (ctx : Context) (op : AggregateOp) (phase : AggregatePhase Expr) : String :=
  let method := (op.method.map AggregateMethod.toText).toList
  let fields := match phase with
    | .bare groupBy => if groupBy.isEmpty then [] else ["GROUP BY[" ++ Expr.listText groupBy ++ "]"]
    | .resolved groupBy aggregates =>
      (if groupBy.isEmpty then [] else ["GROUP BY[" ++ Expr.listText groupBy ++ "]"]) ++ Expr.texts aggregates
    | .split info => (if info.groupBy = 0 then [] else ["GROUP BY " ++ toString info.groupBy]) ++ info.functions
  commas (method ++ fields ++ (op.table.map ctx.sourceName).toList)

/-- The tables of a join tree from the root down, each but the root behind its kind of join. -/
def joinTreeDetails (ctx : Context) (nodes : List JoinTreeNode) : String :=
  commas <| (JoinTree.preorder nodes).filterMap fun i => nodes[i]?.map fun node =>
    (if node.parent.isNone then "" else node.kind.toText ++ " ") ++ ctx.sourceName node.table

namespace Plan

/-- What stands between the brackets of a summary. -/
def details (ctx : Context) : Plan → String
  | leaf _ op => op.details ctx
  | probe _ op operands => op.details ctx operands
  | values _ rows => commas (rows.map fun row => "[" ++ Expr.listText row ++ "]")
  | unary _ op _ operands => op.details ctx operands
  | binary _ op _ _ operands => op.details ctx operands
  | aggregate _ op phase _ => aggregateDetails ctx op phase
  | tableJoins _ group _ _ => group.toText
  | joinTree _ _ nodes _ _ => joinTreeDetails ctx nodes
  | indexScan s => s.details

/-- A node in one line. -/
def summary (ctx : Context) (p : Plan) : String := p.name ++ "(" ++ p.details ctx ++ ")"

end Plan

end ClusterPlan
