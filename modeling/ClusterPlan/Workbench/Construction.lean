import ClusterPlan.Plan.Aggregation
import ClusterPlan.Plan.Editing
import ClusterPlan.Scan.Construction
import ClusterPlan.Workbench.Field

/-!
# Building expressions and plans

A description says what a node is by its field `k`. The parts of a node are built in the order of their fields, and then the
node draws its number; a join, an aggregation, a join tree, joins of a group, an index scan and a change of a table draw it
once their inputs are built.
-/

namespace ClusterPlan.Building

mutual

/-- Builds an expression. Each nested description takes one step of the fuel. -/
def exprWith : Nat → Json → Building Expr
  | 0, _ => throw .malformed
  | fuel + 1, j => do
    let expr (name : String) : Building Expr := exprWith fuel (j.field name)
    let exprs (name : String) : Building (List Expr) := builds (exprWith fuel) j name
    match ← str j "k" with
    | "take" => takeExpr (← str j "var")
    | "const" => return .constant (← read Json.value? j "v") (← read Json.type? j "t")
    | "long" => return .long (.ofInt (← read Json.integer? j "v"))
    | "str" => return .text (← str j "v")
    | "null" => return .constant .null (← read Json.type? j "t")
    | "param" => return .parameter (← num j "pos") (← typeOf? j "t")
    | "col" =>
      let source ← if (j.field "node").isNull then ColumnSource.table <$> refOf j "table"
        else ColumnSource.node <$> idOf (j.field "node")
      return .column ⟨source, ← num j "pos", ← str j "name", ← typeOf? j "t"⟩
    | "cast" => return .cast (← expr "e") (← read Json.type? j "t")
    | "fn" =>
      let args ← exprs "args"
      let f : FunctionHead := ⟨← str j "name", none, ← typeOf? j "t"⟩
      return .call ((← read? Json.overload? j "overload").elim f f.withOverload) args
    | "agg" =>
      let (f, operand) ← aggregateWith fuel j
      return .aggregate f operand
    | "cmp" =>
      let op ← read (Json.named? Comparison.names) j "op"
      let left ← expr "l"
      let right ← expr "r"
      let id : ConditionId := ⟨← draw⟩
      if let some name := (j.field "as").text? then nameCondition name id
      let implementation ← read? (Json.named? Implementation.names) j "impl"
      return .comparison ⟨id, op, implementation.getD .normal⟩ left right
    | "in" => return .inList (← expr "e") (← exprs "list")
    | "subq" =>
      let kind ← read (Json.named? SubqueryKind.names) j "kind"
      return .subquery kind (← planWith fuel (j.field "plan")) (← typeOf? j "t")
    | "special" => return .special (← read (Json.named? SpecialFunction.names) j "fn") (← exprs "args")
    | name => return .logical (← need (LogicalOp.names.lookup name)) (← exprs "args")

/-- Builds the call of an aggregate function and its operand. -/
def aggregateWith : Nat → Json → Building (AggregateHead × Option Expr)
  | 0, _ => throw .malformed
  | fuel + 1, j => do
    if j.flag "star" then return (.countStar, none)
    let operand ← build? (exprWith fuel) j "e"
    let f := AggregateHead.ofName (← str j "fn") (j.flag "distinct") (← typeOf? j "t")
    return ({ f with option := (j.field "option").text?, overload := ← read? Json.overload? j "overload" }, operand)

/-- Builds an expression and reads the flag behind it. -/
def flaggedWith (fallback : Bool) : Nat → Json → Building (Expr × Bool)
  | 0, _ => throw .malformed
  | fuel + 1, j => do return (← exprWith fuel (j.item 0), (j.item 1).bool?.getD fallback)

/-- Builds a plan and names its id if the description says so. -/
def planWith : Nat → Json → Building Plan
  | 0, _ => throw .malformed
  | fuel + 1, j => do
    let p ← nodeWith fuel j
    if let some name := (j.field "as").text? then nameId name p.id
    return p

/-- Builds a plan node with all below it. -/
def nodeWith : Nat → Json → Building Plan
  | 0, _ => throw .malformed
  | fuel + 1, j => do
    let plan (name : String) : Building Plan := planWith fuel (j.field name)
    let exprs (name : String) : Building (List Expr) := builds (exprWith fuel) j name
    let unary (op : Building UnaryOp) (operands : Building (List Expr)) : Building Plan := do
      let input ← plan "in"
      let op ← op
      let operands ← operands
      return .unary (← draw) op input operands
    let binary (left right : String) (op : Building BinaryOp) (operands : Building (List Expr)) : Building Plan := do
      let left ← plan left
      let right ← plan right
      let op ← op
      let operands ← operands
      return .binary (← draw) op left right operands
    match ← str j "k" with
    | "take" => takePlan (← str j "var")
    | "Ast" => unary (pure (.statement (j.field "sql").text?)) (exprs "params")
    | "SelectQuery" => unary (pure .query) (exprs "conds")
    | "Select" => unary (pure .select) (exprs "conds")
    | "DmlStatement" =>
      let input ← plan "in"
      let op := UnaryOp.modify (← read (Json.named? ModifyKind.names) j "kind") (← refOf j "target")
      let id ← draw
      return .unary id op input (← exprs "returning")
    | "ResultSet" => unary (.resultSet <$> reads Json.resultField? j "fields") (pure [])
    | "Subquery" => unary (.subquery <$> num j "outer") (pure [])
    | "Project" => unary (pure .project) (exprs "fields")
    | "Sort" =>
      let input ← plan "in"
      let keys ← builds (flaggedWith true fuel) j "by"
      return .unary (← draw) (.sort (keys.map (·.2))) input (keys.map (·.1))
    | "Limit" => unary (do return .limit (← read? Json.word? j "limit") (← read? Json.word? j "offset")) (pure [])
    | "Distinct" => unary (.distinct <$> read? (Json.named? DistinctMethod.names) j "impl") (pure [])
    | "Union" => binary "l" "r" (pure (.union (j.flag "all"))) (pure [])
    | "AggregateSource" =>
      let input ← plan "in"
      let groupBy ← exprs "by"
      let a := Aggregation.ofGroupBy (← draw) groupBy
      let a ← (j.items "aggs").foldlM (fun (a : Aggregation) agg => do
        let (f, operand) ← aggregateWith fuel agg
        return (a.addAggregate f operand).2) a
      let a := (← read? (Json.named? AggregateMethod.names) j "impl").elim a a.setMethod
      return .aggregate a.id a.op a.phase input
    | "JoinNode" =>
      let left ← plan "l"
      let right ← plan "r"
      let kind ← read (Json.named? JoinKind.names) j "type"
      let id ← draw
      let conditions ← exprs "conds"
      let method ← read? (Json.named? JoinMethod.names) j "impl"
      let op : JoinOp := { kind, method, groupJoin := ← refOf? j "group_join", keyJoin := ← refOf? j "fk_join" }
      return .binary id (.join op) left right conditions
    | "MapJoin" => binary "l" "r" (.mapJoin <$> read (Json.named? JoinKind.names) j "type") (pure [])
    | "TableJoins" =>
      let input ← plan "in"
      let id ← draw
      return .tableJoins id (← refOf j "group") input (← builds (planWith fuel) j "scans")
    | "TableGroupJoinTree" =>
      let group ← refOf j "group"
      let root ← refOf j "root"
      let tree := Plan.joinTree (← draw) group (JoinTree.ofRoot root) [[]] none
      let tree ← (j.items "children").zipIdx.foldlM (fun (tree : Plan) (child, i) => do
        let tree := tree.addTreeChild (← num child "parent") (← refOf child "table")
          (← read (Json.named? JoinKind.names) child "type")
        let conditions ← builds (exprWith fuel) child "conds"
        let tree := conditions.foldl (fun (tree : Plan) e => tree.addTreeCondition (i + 1) e) tree
        return (child.field "state").integer?.elim tree fun state =>
          tree.editTreeNode (i + 1) fun n => { n with state }) tree
      return (← build? (planWith fuel) j "scan").elim tree tree.setTreeScan
    | "TableSource" =>
      let source ← refOf j "source"
      return .leaf (← draw) (.tableSource source)
    | "Flatten" => unary (do
        let nodes ← refsOf j "nodes"
        let tables ← reads (Json.maybe? Json.ref?) j "tables"
        return .flatten nodes tables (← reads (Json.named? JoinKind.names) j "types")) (pure [])
    | "AncestorLookup" => unary (do
        return .ancestorLookup (← refOf j "descendant") (← refsOf j "ancestors") (← refsOf j "tables")) (pure [])
    | "BranchLookup" => unary (do
        let source ← refOf j "source"
        return .branchLookup source (← refOf j "ancestor") (← refOf j "branch") (← refsOf j "tables")) (pure [])
    | "GroupScan" =>
      let group ← refOf j "group"
      return .leaf (← draw) (.groupScan group)
    | "GroupLoopScan" =>
      let op := ProbeOp.groupLoop (← refOf j "inside") (← refOf j "outside") (j.flag "inside_parent")
      let conditions ← exprs "conds"
      return .probe (← draw) op conditions
    | "IndexScan" => scanWith fuel j
    | "Intersect" =>
      let output ← need (← plan "output").scan?
      let selector ← need (← plan "selector").scan?
      let (s, supply) ← ofExcept (output.intersect? selector (← num j "n") (← get).supply)
      modify fun b => { b with supply }
      return .indexScan s
    | "UsingHashTable" => binary "loader" "in" (.usingHashTable <$> refOf j "table") (exprs "keys")
    | "HashTableLookup" =>
      let keys ← exprs "lookup"
      let op := ProbeOp.hashLookup (← refOf j "table") (← refsOf j "tables")
      return .probe (← draw) op keys
    | "UsingBloomFilter" => binary "loader" "in" (.usingBloomFilter <$> refOf j "filter") (pure [])
    | "BloomFilterFilter" =>
      let filter ← refOf j "filter"
      let input ← plan "in"
      let keys ← exprs "lookup"
      let check ← plan "check"
      return .binary (← draw) (.bloomFilterFilter filter) input check keys
    | "SubquerySource" => unary (.subquerySource <$> str j "name") (pure [])
    | "ExpressionsSource" =>
      let rows ← (j.items "rows").mapM fun row => row.toList.mapM (exprWith fuel)
      return .values (← draw) rows
    | "NullSource" => return .leaf (← draw) .nothing
    | _ => throw .malformed

/-- Builds a scan of one index. -/
def scanWith : Nat → Json → Building Plan
  | 0, _ => throw .malformed
  | fuel + 1, j => do
    let bound (name : String) : Building (Option (Expr × Bool)) := build? (flaggedWith false fuel) j name
    let index ← need ((← get).indexes.lookup (← str j "index"))
    let rootMost ← refOf j "root"
    let leafMost ← refOf j "leaf"
    let ordering ← if (j.field "ordering").isNull then pure (Scan.orderingOf (← context) index rootMost leafMost)
      else builds (flaggedWith true fuel) j "ordering"
    let s := Scan.ofIndex (← context) (← draw) index rootMost leafMost ordering
    let s ← ofExcept (s.setEquality (← builds (exprWith fuel) j "eq"))
    let unions ← (j.items "unions").mapM fun row => row.toList.mapM (exprWith fuel)
    let s ← ofExcept (unions.foldlM Scan.addUnion s)
    let s ← ofExcept ((← bound "low").elim (.ok s) fun (e, inclusive) => s.setLow e inclusive)
    let s ← ofExcept ((← bound "high").elim (.ok s) fun (e, inclusive) => s.setHigh e inclusive)
    let s := (← builds conditionOf j "conds").foldl Scan.addCondition s
    let s := (← refsOf j "tables").foldl Scan.addTable s
    let s := s.setCovering (j.flag "covering")
    let s := (← read? Json.cost? j "cost").elim s s.setCost
    return .indexScan ((j.field "include_union").bool?.elim s fun counted => s.setIncludeUnion counted)

end

/-- More steps than a description has levels: each level takes at most three of them. -/
def fuelFor (j : Json) : Nat := 3 * j.depth + 4

def expr (j : Json) : Building Expr := exprWith (fuelFor j) j

def aggregate (j : Json) : Building (AggregateHead × Option Expr) := aggregateWith (fuelFor j) j

/-- An expression with a flag behind it. -/
def flagged (fallback : Bool) (j : Json) : Building (Expr × Bool) := flaggedWith fallback (fuelFor j) j

def plan (j : Json) : Building Plan := planWith (fuelFor j) j

end ClusterPlan.Building
