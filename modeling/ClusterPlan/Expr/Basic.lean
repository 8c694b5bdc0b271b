import ClusterPlan.Plan

/-!
# Expressions: operands, text and equality

`Expr.children` lists the operands of an expression; the plan of a subquery is none of them. `Expr.same` is equality of
structure, except that two subqueries are equal when their kinds and the ids of their plans are.
-/

namespace ClusterPlan

namespace Expr

/-- A constant of type BIGINT. -/
def long (i : Int64) : Expr := constant (.int i) (.notNull .bigInt)

/-- A text constant; its type has the number of its characters. -/
def text (s : String) : Expr := constant (.string s) (.notNull (.varchar (UInt32.ofNat s.length)))

/-- The operands of an expression in their order. -/
def children : Expr → List Expr
  | constant _ _ | parameter _ _ | column _ | subquery _ _ _ => []
  | cast operand _ => [operand]
  | call _ operands | logical _ operands | special _ operands => operands
  | aggregate _ operand => operand.toList
  | comparison _ left right => [left, right]
  | inList operand list => operand :: list

/-- Is there nothing below the expression? -/
def isLeaf : Expr → Bool
  | constant _ _ | parameter _ _ | column _ => true
  | _ => false

/-- The type of an expression where it has one. Conditions have none. -/
def type? : Expr → Option TypeInstance
  | constant _ type | cast _ type => some type
  | parameter _ type | subquery _ _ type => type
  | column c => c.type
  | call f _ => f.type
  | aggregate f _ => f.type
  | comparison _ _ _ | logical _ _ | inList _ _ | special _ _ => none

def isConstant : Expr → Bool
  | constant _ _ => true
  | _ => false

def isColumn : Expr → Bool
  | column _ => true
  | _ => false

/-- Is the expression true or false of a row? A scalar subquery is not. -/
def isCondition : Expr → Bool
  | comparison _ _ _ | logical _ _ | inList _ _ | special _ _ => true
  | subquery kind _ _ => kind != .value
  | _ => false

def comparison? : Expr → Option ComparisonHead
  | comparison c _ _ => some c
  | _ => none

/-- The identity of a comparison. -/
def conditionId? (e : Expr) : Option ConditionId := e.comparison?.map (·.id)

/-- The use of a table that a column reads. -/
def tableSource? : Expr → Option SourceId
  | column ⟨.table source, _, _, _⟩ => some source
  | _ => none

/-- The same comparison with its operands exchanged; other expressions stay. -/
def reverse : Expr → Expr
  | comparison c left right => comparison { c with op := c.op.reversed } right left
  | e => e

/-- The text of a column: columns of a plan node show its id. -/
def columnText (c : ColumnRef) : String :=
  match c.source with
  | .table _ => c.name
  | .node id => "[" ++ toString id ++ "]." ++ c.name

mutual

/-- The text of an expression. -/
def toText : Expr → String
  | constant value _ => value.toText
  | parameter position _ => "$" ++ toString (position + 1)
  | column c => columnText c
  | cast operand type => "CAST(" ++ operand.toText ++ " AS " ++ type.dataType.toText ++ ")"
  | call f operands => f.name ++ "(" ++ ", ".intercalate (texts operands) ++ ")"
  | aggregate f none => f.function ++ "(" ++ (if f.distinct then "DISTINCT " else "") ++ "*)"
  | aggregate f (some operand) => f.function ++ "(" ++ (if f.distinct then "DISTINCT " else "") ++ operand.toText ++ ")"
  | comparison c left right => left.toText ++ " " ++ c.op.symbol ++ " " ++ right.toText
  | logical op operands => op.name ++ "(" ++ ", ".intercalate (texts operands) ++ ")"
  | inList operand list => operand.toText ++ " IN (" ++ ", ".intercalate (texts list) ++ ")"
  | subquery kind plan _ => kind.name ++ "(Subquery@" ++ toString plan.id ++ ")"
  | special f operands => f.name ++ "(" ++ ", ".intercalate (texts operands) ++ ")"

/-- The texts of some expressions. -/
def texts : List Expr → List String
  | [] => []
  | e :: es => e.toText :: texts es

end

/-- The texts of some expressions with commas between them. -/
def listText (es : List Expr) : String := ", ".intercalate (texts es)

mutual

/-- Equality of structure; subqueries are compared by kind and plan id. -/
def same : Expr → Expr → Bool
  | constant v t, constant v' t' => v == v' && t == t'
  | parameter p t, parameter p' t' => p == p' && t == t'
  | column c, column c' => c == c'
  | cast e t, cast e' t' => e.same e' && t == t'
  | call f es, call f' es' => f == f' && sameAll es es'
  | aggregate f none, aggregate f' none => f == f'
  | aggregate f (some e), aggregate f' (some e') => f == f' && e.same e'
  | comparison c l r, comparison c' l' r' => c == c' && l.same l' && r.same r'
  | logical o es, logical o' es' => o == o' && sameAll es es'
  | inList e es, inList e' es' => e.same e' && sameAll es es'
  | subquery k p _, subquery k' p' _ => k == k' && p.id == p'.id
  | special f es, special f' es' => f == f' && sameAll es es'
  | _, _ => false

/-- Are two lists equally long and their expressions equal in pairs? -/
def sameAll : List Expr → List Expr → Bool
  | [], [] => true
  | e :: es, e' :: es' => e.same e' && sameAll es es'
  | _, _ => false

end

mutual

/-- The plans of the subqueries in an expression, from left to right. Those inside of another subquery are not among them. -/
def subqueries : Expr → List Plan
  | constant _ _ | parameter _ _ | column _ | aggregate _ none => []
  | cast operand _ => operand.subqueries
  | call _ operands | logical _ operands | special _ operands => subqueriesOf operands
  | aggregate _ (some operand) => operand.subqueries
  | comparison _ left right => left.subqueries ++ right.subqueries
  | inList operand list => operand.subqueries ++ subqueriesOf list
  | subquery _ plan _ => [plan]

def subqueriesOf : List Expr → List Plan
  | [] => []
  | e :: es => e.subqueries ++ subqueriesOf es

end

end Expr

/-- The subquery plans that stand in the operands of a node. -/
def Plan.subqueries (p : Plan) : List Plan := Expr.subqueriesOf p.exprs

end ClusterPlan
