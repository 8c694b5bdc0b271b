import ClusterPlan.Expr.Basic
import ClusterPlan.Error

/-!
# Constants at planning time

`Expr.evaluateConstant` gives the value of a constant under any number of casts. Every operand is looked at from left to
right, so that a special predicate, which only an index can answer, and a cast that fails are reported wherever they stand.
-/

namespace ClusterPlan.Expr

/-- The complaint about a predicate that no index has consumed. -/
def unsupportedSpecial (f : SpecialFunction) : PlanError :=
  .unsupported (f.name ++ " 只能用于索引选择，不能直接求值")

mutual

/-- The value of a constant expression; no value where the expression is none. -/
def evaluateConstant : Expr → Except PlanError (Option Value)
  | constant value _ => .ok (some value)
  | parameter _ _ | column _ | subquery _ _ _ | aggregate _ none => .ok none
  | cast operand type =>
    match operand.evaluateConstant with
    | .ok (some value) =>
      match value.cast type.dataType with
      | .ok value => .ok (some value)
      | .error e => .error (.type e)
    | other => other
  | special f _ => .error (unsupportedSpecial f)
  | call _ operands | logical _ operands => (checkAll operands).map fun _ => none
  | aggregate _ (some operand) => operand.evaluateConstant.map fun _ => none
  | comparison _ left right =>
    match left.evaluateConstant with
    | .ok _ => right.evaluateConstant.map fun _ => none
    | .error e => .error e
  | inList operand list =>
    match operand.evaluateConstant with
    | .ok _ => (checkAll list).map fun _ => none
    | .error e => .error e

/-- The first error in some expressions. -/
def checkAll : List Expr → Except PlanError Unit
  | [] => .ok ()
  | e :: es =>
    match e.evaluateConstant with
    | .ok _ => checkAll es
    | .error e => .error e

end

end ClusterPlan.Expr
