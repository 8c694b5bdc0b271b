import ClusterPlan.Expr.Basic

/-!
# The parent index of a plan

Each node of a plan and of all its subqueries with the node that reads its rows. The root has no such node, nor has the root
of a subquery, which an expression holds.
-/

namespace ClusterPlan

/-- Ids with the ids of their parents; a later entry takes the place of an earlier one. -/
structure ParentIndex where
  entries : List (Int × Option Int) := []

namespace ParentIndex

/-- Enters a parent in place of the one that was entered before. -/
def insert (x : ParentIndex) (id : Int) (parent : Option Int) : ParentIndex :=
  ⟨(id, parent) :: x.entries.filter fun entry => entry.1 != id⟩

def contains (x : ParentIndex) (id : Int) : Bool := x.entries.any fun entry => entry.1 == id

/-- The parent of a node; none for roots and for ids that are not in the plan. -/
def parentOf? (x : ParentIndex) (id : Int) : Option Int := (x.entries.lookup id).join

def size (x : ParentIndex) : Nat := x.entries.length

end ParentIndex

mutual

/-- Every node in the subqueries of an expression with its parent, a node before what lies below it. -/
def Expr.parents : Expr → List (Int × Option Int)
  | .constant _ _ | .parameter _ _ | .column _ | .aggregate _ none => []
  | .cast operand _ => operand.parents
  | .call _ operands | .logical _ operands | .special _ operands => Expr.parentsIn operands
  | .aggregate _ (some operand) => operand.parents
  | .comparison _ left right => left.parents ++ right.parents
  | .inList operand list => operand.parents ++ Expr.parentsIn list
  | .subquery _ plan _ => plan.parents none

def Expr.parentsIn : List Expr → List (Int × Option Int)
  | [] => []
  | e :: es => e.parents ++ Expr.parentsIn es

def Expr.parentsInRows : List (List Expr) → List (Int × Option Int)
  | [] => []
  | row :: rows => Expr.parentsIn row ++ Expr.parentsInRows rows

def Scan.parents : Scan → List (Int × Option Int)
  | .single _ ⟨_, _, _, _, equality, unions, low, high⟩ =>
    Expr.parentsIn equality ++ Expr.parentsInRows unions ++
      (match low with
        | some ⟨e, _⟩ => e.parents
        | none => []) ++
      (match high with
        | some ⟨e, _⟩ => e.parents
        | none => [])
  | .intersect _ _ output selector => output.parents ++ selector.parents

/-- Every node of a plan and its subqueries with its parent, a node before what lies below it. -/
def Plan.parents (parent : Option Int) : Plan → List (Int × Option Int)
  | .leaf id _ => [(id, parent)]
  | .probe id _ operands => (id, parent) :: Expr.parentsIn operands
  | .values id rows => (id, parent) :: Expr.parentsInRows rows
  | .unary id _ input operands => (id, parent) :: (input.parents (some id) ++ Expr.parentsIn operands)
  | .binary id _ left right operands =>
    (id, parent) :: (left.parents (some id) ++ right.parents (some id) ++ Expr.parentsIn operands)
  | .aggregate id _ phase input =>
    (id, parent) :: (input.parents (some id) ++
      (match phase with
        | .bare groupBy => Expr.parentsIn groupBy
        | .resolved groupBy aggregates => Expr.parentsIn groupBy ++ Expr.parentsIn aggregates
        | .split _ => []))
  | .tableJoins id _ input _ => (id, parent) :: input.parents (some id)
  | .joinTree id _ _ conditions none => (id, parent) :: Expr.parentsInRows conditions
  | .joinTree id _ _ conditions (some scan) =>
    (id, parent) :: (scan.parents (some id) ++ Expr.parentsInRows conditions)
  | .indexScan s => (s.id, parent) :: s.parents

end

/-- The index of a plan. -/
def ParentIndex.ofPlan (root : Plan) : ParentIndex :=
  (root.parents none).foldl (fun x (id, parent) => x.insert id parent) {}

end ClusterPlan
