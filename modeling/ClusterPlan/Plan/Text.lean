import ClusterPlan.Plan.Search
import ClusterPlan.Plan.Summary
import ClusterPlan.Plan.Traversal

/-!
# The text of a plan

One line for each node, indented by its depth. The subqueries in the operands of a plan wait in a queue and follow one after
the other, each again without indentation.
-/

namespace ClusterPlan

/-- A plan text that is being written: the lines so far, the depth of the next one, and the ids of the plans that wait. -/
structure PlanWriter where
  lines : List String := []
  depth : Nat := 0
  pending : List Int := []

namespace PlanWriter

/-- Adds the line of a node. -/
def line (ctx : Context) (p : Plan) (w : PlanWriter) : PlanWriter :=
  let indent := String.ofList (List.replicate (w.depth * ctx.config.indent.toNat) ' ')
  { w with lines := w.lines ++ [indent ++ p.summary ctx] }

/-- Writes nodes and puts off subqueries. -/
def visitor (ctx : Context) : Visitor PlanWriter where
  enter p := do
    modify fun w => { w.line ctx p with depth := w.depth + 1 }
    pure true
  leave _ := do
    modify fun w => { w with depth := w.depth - 1 }
    pure true
  visit p := do
    modify (line ctx p)
    pure true
  enterExpr
    | .subquery _ plan _ => do
      modify fun w => { w with pending := w.pending ++ [plan.id] }
      pure false
    | _ => pure true

/-- Writes the plans that wait, and those that come to wait meanwhile, `fuel` of them at most. -/
def writePending (ctx : Context) (root : Plan) : Nat → PlanWriter → PlanWriter
  | 0, w => w
  | fuel + 1, w =>
    match w.pending with
    | [] => w
    | id :: pending =>
      let w := { w with pending }
      match root.find? id with
      | some p => writePending ctx root fuel ((p.acceptDeep (visitor ctx)).run { w with depth := 0 }).2
      | none => writePending ctx root fuel w

end PlanWriter

mutual

/-- The number of subqueries in an expression, at any depth. -/
def Expr.subqueryCount : Expr → Nat
  | .constant _ _ | .parameter _ _ | .column _ | .aggregate _ none => 0
  | .cast operand _ => operand.subqueryCount
  | .call _ operands | .logical _ operands | .special _ operands => Expr.subqueryCountIn operands
  | .aggregate _ (some operand) => operand.subqueryCount
  | .comparison _ left right => left.subqueryCount + right.subqueryCount
  | .inList operand list => operand.subqueryCount + Expr.subqueryCountIn list
  | .subquery _ plan _ => 1 + plan.subqueryCount

def Expr.subqueryCountIn : List Expr → Nat
  | [] => 0
  | e :: es => e.subqueryCount + Expr.subqueryCountIn es

def Expr.subqueryCountInRows : List (List Expr) → Nat
  | [] => 0
  | row :: rows => Expr.subqueryCountIn row + Expr.subqueryCountInRows rows

def Scan.subqueryCount : Scan → Nat
  | .single _ ⟨_, _, _, _, equality, unions, low, high⟩ =>
    Expr.subqueryCountIn equality + Expr.subqueryCountInRows unions +
      (match low with
        | some ⟨e, _⟩ => e.subqueryCount
        | none => 0) +
      (match high with
        | some ⟨e, _⟩ => e.subqueryCount
        | none => 0)
  | .intersect _ _ output selector => output.subqueryCount + selector.subqueryCount

/-- The number of subqueries in the operands of a plan, at any depth. -/
def Plan.subqueryCount : Plan → Nat
  | .leaf _ _ => 0
  | .probe _ _ operands => Expr.subqueryCountIn operands
  | .values _ rows => Expr.subqueryCountInRows rows
  | .unary _ _ input operands => input.subqueryCount + Expr.subqueryCountIn operands
  | .binary _ _ left right operands => left.subqueryCount + right.subqueryCount + Expr.subqueryCountIn operands
  | .aggregate _ _ phase input =>
    input.subqueryCount +
      (match phase with
        | .bare groupBy => Expr.subqueryCountIn groupBy
        | .resolved groupBy aggregates => Expr.subqueryCountIn groupBy + Expr.subqueryCountIn aggregates
        | .split _ => 0)
  | .tableJoins _ _ input _ => input.subqueryCount
  | .joinTree _ _ _ conditions none => Expr.subqueryCountInRows conditions
  | .joinTree _ _ _ conditions (some scan) => scan.subqueryCount + Expr.subqueryCountInRows conditions
  | .indexScan s => s.subqueryCount

end

/-- The text of a plan and of its subqueries. -/
def Plan.toText (ctx : Context) (p : Plan) : String :=
  "\n".intercalate (PlanWriter.writePending ctx p (p.subqueryCount + 1) { pending := [p.id] }).lines

end ClusterPlan
