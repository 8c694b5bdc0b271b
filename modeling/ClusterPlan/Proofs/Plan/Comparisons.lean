import ClusterPlan.Plan

/-!
# The comparisons of a plan

All comparisons that stand anywhere in a plan: in operands, under other expressions, in the plans of subqueries, in candidate
scans and in both branches of an index scan. They are listed in the order in which a copy of the plan meets them.
-/

namespace ClusterPlan

mutual

def Expr.comparisons : Expr → List ComparisonHead
  | .constant _ _ | .parameter _ _ | .column _ | .aggregate _ none => []
  | .cast operand _ | .aggregate _ (some operand) => operand.comparisons
  | .call _ operands | .logical _ operands | .special _ operands => Expr.comparisonsAll operands
  | .comparison c left right => c :: (left.comparisons ++ right.comparisons)
  | .inList operand list => operand.comparisons ++ Expr.comparisonsAll list
  | .subquery _ plan _ => plan.comparisons

def Expr.comparisonsAll : List Expr → List ComparisonHead
  | [] => []
  | e :: es => e.comparisons ++ Expr.comparisonsAll es

def Expr.comparisonsRows : List (List Expr) → List ComparisonHead
  | [] => []
  | row :: rows => Expr.comparisonsAll row ++ Expr.comparisonsRows rows

def Expr.comparisonsBound : Option (Bound Expr) → List ComparisonHead
  | none => []
  | some ⟨e, _⟩ => e.comparisons

def Expr.comparisonsPhase : AggregatePhase Expr → List ComparisonHead
  | .bare groupBy => Expr.comparisonsAll groupBy
  | .resolved groupBy aggregates => Expr.comparisonsAll groupBy ++ Expr.comparisonsAll aggregates
  | .split _ => []

def Scan.comparisons : Scan → List ComparisonHead
  | .single _ ⟨_, _, _, ordering, equality, unions, low, high⟩ =>
    Expr.comparisonsAll ordering ++ (Expr.comparisonsAll equality ++ (Expr.comparisonsRows unions ++
      (Expr.comparisonsBound low ++ Expr.comparisonsBound high)))
  | .intersect _ _ output selector => output.comparisons ++ selector.comparisons

def Plan.comparisons : Plan → List ComparisonHead
  | .leaf _ _ => []
  | .probe _ _ operands => Expr.comparisonsAll operands
  | .values _ rows => Expr.comparisonsRows rows
  | .unary _ _ input operands => input.comparisons ++ Expr.comparisonsAll operands
  | .binary _ (.bloomFilterFilter _) left right operands =>
    left.comparisons ++ (Expr.comparisonsAll operands ++ right.comparisons)
  | .binary _ _ left right operands => left.comparisons ++ (right.comparisons ++ Expr.comparisonsAll operands)
  | .aggregate _ _ phase input => Expr.comparisonsPhase phase ++ input.comparisons
  | .tableJoins _ _ input scans => input.comparisons ++ Plan.comparisonsAll scans
  | .joinTree _ _ _ conditions none => Expr.comparisonsRows conditions
  | .joinTree _ _ _ conditions (some scan) => Expr.comparisonsRows conditions ++ scan.comparisons
  | .indexScan s => s.comparisons

def Plan.comparisonsAll : List Plan → List ComparisonHead
  | [] => []
  | p :: ps => p.comparisons ++ Plan.comparisonsAll ps

end

end ClusterPlan
