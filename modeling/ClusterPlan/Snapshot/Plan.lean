import ClusterPlan.Json.Serializer
import ClusterPlan.Plan.Description
import ClusterPlan.Plan.Summary
import ClusterPlan.Snapshot.Value

/-!
# Snapshots of expressions and plans

A node of a plan is shown with its operands and inputs and with what its operator holds.
-/

namespace ClusterPlan

/-- A node, given the snapshots of its operands and inputs and of what it holds. -/
def Plan.nodeSnapshot (ctx : Context) (p : Plan) (operands inputs : List Json) (held : Json) : Json :=
  .record [("id", .int p.id), ("k", .text p.name), ("d", .text (p.details ctx)), ("leaf", .bool p.isLeaf),
    ("x", .array operands), ("c", .array inputs), ("p", held)]

/-! ## What operators hold -/

def LeafOp.snapshot : LeafOp → Json
  | tableSource s => .record [("source", s.snapshot)]
  | groupScan g => .record [("group", g.snapshot)]
  | nothing => .null

def ProbeOp.snapshot (operands : Nat) : ProbeOp → Json
  | groupLoop inside outside insideParent =>
    .record [("inside", inside.snapshot), ("outside", outside.snapshot), ("inside_parent", .bool insideParent),
      ("conds", .nat operands)]
  | hashLookup table tables =>
    .record [("table", table.snapshot), ("tables", .list Ref.snapshot tables), ("lookup", .nat operands)]

def UnaryOp.snapshot (input : Int) (operands : List Expr) : UnaryOp → Json
  | statement sql => .record [("sql", .option .text sql), ("params", .nat operands.length)]
  | query | select => .record [("conds", .nat operands.length)]
  | modify kind target =>
    .record [("kind", .text kind.toText), ("target", target.snapshot), ("has_returning", .bool !operands.isEmpty),
      ("returning", .nat operands.length)]
  | resultSet fields => .list ResultField.snapshot fields
  | subquery outer => .record [("outer", .nat outer), ("correlated", .bool (outer != 0))]
  | project => .record [("n_fields", .nat operands.length), ("fields", snapshotTexts (Expr.texts operands))]
  | sort ascending => .list .bool ascending
  | limit count skip =>
    .record [("limit", .option (.nat ·.toNat) count), ("offset", .option (.nat ·.toNat) skip)]
  | distinct method => .option (fun m => .text (nameIn DistinctMethod.names m)) method
  | flatten nodes tables kinds =>
    .record [("nodes", .list Ref.snapshot nodes), ("types", snapshotTexts (kinds.map JoinKind.toText)),
      ("tables", .list (.option Ref.snapshot) tables)]
  | ancestorLookup descendant ancestors tables =>
    .record [("descendant", descendant.snapshot), ("ancestors", .list Ref.snapshot ancestors),
      ("tables", .list Ref.snapshot tables)]
  | branchLookup source ancestor branch tables =>
    .record [("source", source.snapshot), ("ancestor", ancestor.snapshot), ("branch", branch.snapshot),
      ("tables", .list Ref.snapshot tables)]
  | subquerySource name => .record [("name", .text name), ("in", .int input)]

def BinaryOp.snapshot (left right : Int) (operands : Nat) : BinaryOp → Json
  | join op =>
    .record [("type", .text op.kind.toText), ("impl", .option (fun m => .text m.toText) op.method),
      ("group_join", .option Ref.snapshot op.groupJoin), ("fk_join", .option Ref.snapshot op.keyJoin),
      ("l", .int left), ("r", .int right), ("inner", .bool op.kind.isInner), ("outer", .bool op.kind.isOuter),
      ("semi", .bool op.kind.isSemi), ("has_conds", .bool (operands != 0)), ("conds", .nat operands)]
  | mapJoin kind => .record [("type", .text kind.toText), ("l", .int left), ("r", .int right)]
  | union all => .record [("all", .bool all), ("l", .int left), ("r", .int right)]
  | usingHashTable table =>
    .record [("table", table.snapshot), ("loader", .int left), ("in", .int right), ("keys", .nat operands)]
  | usingBloomFilter filter => .record [("filter", filter.snapshot), ("loader", .int left), ("in", .int right)]
  | bloomFilterFilter filter =>
    .record [("filter", filter.snapshot), ("check", .int right), ("in", .int left), ("lookup", .nat operands)]

def AggregatePhase.name {ε : Type} : AggregatePhase ε → String
  | bare _ => "Bare"
  | resolved _ _ => "Resolved"
  | split _ => "Split"

def Aggregation.snapshot (a : Aggregation) : Json :=
  .record [("phase", .text a.phase.name), ("split", .bool a.splitInfo.toBool),
    ("n_group_by", .nat a.phase.groupByCount), ("n_aggregates", .nat a.phase.aggregateCount),
    ("n_fields", .nat a.phase.fieldCount), ("has_group_by", .bool (a.phase.groupByCount != 0)),
    ("options", .list (.option .text) a.options), ("impl", .option (fun m => .text m.toText) a.op.method),
    ("table", .option Ref.snapshot a.table.toOption.join)]

/-- A node of a join tree and its place in the tree. -/
def JoinTreeNode.snapshot (conditions : List (List Expr)) (i : Nat) (n : JoinTreeNode) : Json :=
  .record [("i", .nat i), ("table", n.table.snapshot), ("parent", .option .nat n.parent),
    ("first_child", .option .nat n.firstChild), ("next_sibling", .option .nat n.nextSibling), ("type", .text n.kind.toText),
    ("conds", snapshotTexts (Expr.texts ((conditions[i]?).getD []))), ("state", .int n.state)]

def JoinTree.snapshot (group : GroupId) (nodes : List JoinTreeNode) (conditions : List (List Expr))
    (scan : Option Int) : Json :=
  .record [("group", group.snapshot), ("len", .nat nodes.length), ("empty", .bool nodes.isEmpty),
    ("scan", .option .int scan),
    ("nodes", .array ((JoinTree.preorder nodes).filterMap fun i =>
      nodes[i]?.map (JoinTreeNode.snapshot conditions i)))]

def Bound.snapshot (b : Bound Expr) : Json := .array [.text b.comparand.toText, .bool b.inclusive]

/-- The comparands of a scan of one index. -/
def SingleScan.snapshot (s : SingleScan Expr) : Json :=
  .record [("index", .text s.index.name), ("eq", snapshotTexts (Expr.texts s.equality)),
    ("unions", .list (fun es => snapshotTexts (Expr.texts es)) s.unions), ("low", .option Bound.snapshot s.low),
    ("high", .option Bound.snapshot s.high)]

/-- A scan, given the snapshots of its parts and of its ordering. -/
def Scan.headSnapshot (ctx : Context) (s : Scan) (intersection : Bool) (parts : Json) (ordering : List Json) : Json :=
  let h := s.head
  let directions := (List.range (s.ordering.length + 1)).map s.isAscendingAt
  .record [("id", .int s.id), ("intersect", .bool intersection), ("parts", parts),
    ("index", .text s.output.index.name), ("ordering", .array ordering), ("asc", .list .bool directions),
    ("root", h.rootMost.snapshot), ("leaf", h.leafMost.snapshot), ("tables", .list Ref.snapshot h.tables),
    ("n_equality", .nat s.equalityCount), ("n_unions", .nat s.unionCount),
    ("eq", snapshotTexts (Expr.texts s.output.equality)), ("low", .option Bound.snapshot s.output.low),
    ("high", .option Bound.snapshot s.output.high), ("conds", .list ConditionId.snapshot h.conditions),
    ("order", .text h.order.toText), ("reverse", .bool h.reverse), ("covering", .bool h.covering),
    ("cost", .option Cost.snapshot h.cost), ("pegged", .nat s.equalityCount),
    ("leaf_table", .text (ctx.tableOf h.leafMost).name),
    ("columns", snapshotTexts (s.ordering.map fun c => c.1.toText))]

def ColumnSource.snapshot : ColumnSource → String × Json
  | table s => ("table", s.snapshot)
  | node id => ("node", .int id)

/-- The snapshots that a scan gives: of its ordering, of its comparands, and of the scan itself. -/
structure ScanSnapshot where
  ordering : List Json
  comparands : List Json
  scan : Json

/-! ## Expressions and plans -/

mutual

def Expr.snapshot (ctx : Context) : Expr → Json
  | .constant v t => .record [("k", .text "const"), ("v", v.snapshot), ("t", t.snapshot)]
  | .parameter p t => .record [("k", .text "param"), ("pos", .nat p), ("t", .option TypeInstance.snapshot t)]
  | .column c =>
    .record [("k", .text "col"), c.source.snapshot, ("pos", .nat c.position), ("name", .text c.name),
      ("t", .option TypeInstance.snapshot c.type)]
  | .cast e t => .record [("k", .text "cast"), ("e", e.snapshot ctx), ("t", t.snapshot)]
  | .call f es =>
    .record [("k", .text "fn"), ("name", .text f.name), ("args", .array (Expr.snapshots ctx es)),
      ("overload", .option Overload.snapshot f.overload), ("t", .option TypeInstance.snapshot f.type)]
  | .aggregate f operand =>
    let e := match operand with
      | some e => e.snapshot ctx
      | none => .null
    .record [("k", .text "agg"), ("fn", .text f.function), ("e", e), ("distinct", .bool f.distinct),
      ("option", .option .text f.option), ("overload", .option Overload.snapshot f.overload),
      ("t", .option TypeInstance.snapshot f.type)]
  | .comparison c left right =>
    .record [("k", .text "cmp"), ("id", c.id.snapshot), ("op", .text c.op.symbol), ("l", left.snapshot ctx),
      ("r", right.snapshot ctx), ("impl", .text (nameIn Implementation.names c.implementation))]
  | .logical op es => .record [("k", .text op.name), ("args", .array (Expr.snapshots ctx es))]
  | .inList e es => .record [("k", .text "in"), ("e", e.snapshot ctx), ("list", .array (Expr.snapshots ctx es))]
  | .subquery kind p t =>
    .record [("k", .text "subq"), ("kind", .text (nameIn SubqueryKind.names kind)), ("plan", p.snapshot ctx),
      ("t", .option TypeInstance.snapshot t)]
  | .special f es =>
    .record [("k", .text "special"), ("fn", .text f.name), ("args", .array (Expr.snapshots ctx es))]

def Expr.snapshots (ctx : Context) : List Expr → List Json
  | [] => []
  | e :: es => e.snapshot ctx :: Expr.snapshots ctx es

/-- The expressions of some rows. -/
def Expr.rowSnapshots (ctx : Context) : List (List Expr) → List Json
  | [] => []
  | row :: rows => Expr.snapshots ctx row ++ Expr.rowSnapshots ctx rows

/-- Columns with their directions. -/
def Expr.orderingSnapshots (ctx : Context) : List Expr → List Bool → List Json
  | e :: es, ascending :: directions =>
    .array [e.snapshot ctx, .text (e.toText ++ if ascending then " ASC" else " DESC")] ::
      Expr.orderingSnapshots ctx es directions
  | _, _ => []

def Scan.snapshots (ctx : Context) : Scan → ScanSnapshot
  | .single head ⟨index, withUnions, ascending, ordering, equality, unions, low, high⟩ =>
    let x : SingleScan Expr := ⟨index, withUnions, ascending, ordering, equality, unions, low, high⟩
    let ordering := Expr.orderingSnapshots ctx ordering ascending
    let lows := match low with
      | some ⟨e, _⟩ => [e.snapshot ctx]
      | none => []
    let highs := match high with
      | some ⟨e, _⟩ => [e.snapshot ctx]
      | none => []
    { ordering, comparands := Expr.snapshots ctx equality ++ Expr.rowSnapshots ctx unions ++ lows ++ highs
      scan := Scan.headSnapshot ctx (.single head x) false x.snapshot ordering }
  | .intersect head n output selector =>
    let a := output.snapshots ctx
    let b := selector.snapshots ctx
    let parts := Json.record [("n", .nat n), ("output", a.scan), ("selector", b.scan)]
    { ordering := a.ordering, comparands := a.comparands ++ b.comparands
      scan := Scan.headSnapshot ctx (.intersect head n output selector) true parts a.ordering }

def Plan.snapshot (ctx : Context) : Plan → Json
  | .leaf id op => Plan.nodeSnapshot ctx (.leaf id op) [] [] op.snapshot
  | .probe id op operands =>
    Plan.nodeSnapshot ctx (.probe id op operands) (Expr.snapshots ctx operands) [] (op.snapshot operands.length)
  | .values id rows =>
    Plan.nodeSnapshot ctx (.values id rows) (Expr.rowSnapshots ctx rows) []
      (.record [("n_fields", .nat ((rows.head?.map List.length).getD 0)),
        ("rows", .list (fun row => .nat row.length) rows)])
  | .unary id op input operands =>
    Plan.nodeSnapshot ctx (.unary id op input operands) (Expr.snapshots ctx operands) [input.snapshot ctx]
      (op.snapshot input.id operands)
  | .binary id op left right operands =>
    Plan.nodeSnapshot ctx (.binary id op left right operands) (Expr.snapshots ctx operands)
      [left.snapshot ctx, right.snapshot ctx] (op.snapshot left.id right.id operands.length)
  | .aggregate id op phase input =>
    let operands := match phase with
      | .bare groupBy => Expr.snapshots ctx groupBy
      | .resolved groupBy aggregates => Expr.snapshots ctx groupBy ++ Expr.snapshots ctx aggregates
      | .split _ => []
    Plan.nodeSnapshot ctx (.aggregate id op phase input) operands [input.snapshot ctx]
      (Aggregation.snapshot ⟨id, op, phase⟩)
  | .tableJoins id group input scans =>
    Plan.nodeSnapshot ctx (.tableJoins id group input scans) [] [input.snapshot ctx]
      (.record [("group", group.snapshot), ("joins", .int input.id), ("scans", .array (Plan.snapshots ctx scans))])
  | .joinTree id group nodes conditions scan =>
    let inputs := match scan with
      | some p => [p.snapshot ctx]
      | none => []
    Plan.nodeSnapshot ctx (.joinTree id group nodes conditions scan) (Expr.rowSnapshots ctx conditions) inputs
      (JoinTree.snapshot group nodes conditions (scan.map Plan.id))
  | .indexScan s =>
    let x := s.snapshots ctx
    Plan.nodeSnapshot ctx (.indexScan s) x.comparands [] x.scan

def Plan.snapshots (ctx : Context) : List Plan → List Json
  | [] => []
  | p :: ps => p.snapshot ctx :: Plan.snapshots ctx ps

end

/-! ## Descriptions -/

namespace PlanDescription

def toJson (d : PlanDescription) : Json := .ofValue d

def ofJson? (j : Json) : Option PlanDescription := j.toValue? PlanDescription

/-- The text that the serializer of the workbench writes. -/
def toText (d : PlanDescription) : String := d.toJson.pretty

def ofText? (s : String) : Option PlanDescription := Json.serializer.value? PlanDescription s

end PlanDescription

end ClusterPlan
