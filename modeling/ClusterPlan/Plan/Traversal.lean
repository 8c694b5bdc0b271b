import ClusterPlan.Expr.Basic

/-!
# Walking plans and expressions

A visitor is told when a walk enters and leaves an inner node and when it visits a leaf. An answer `false` to `enter` leaves
out what lies below the node, which is left all the same; an answer `false` to `leave` or `visit` ends the walk through the
siblings that follow. The answer of a walk is that of its last call.
-/

namespace ClusterPlan

/-- The calls of a walk, which act on a state. -/
structure Visitor (σ : Type) where
  enter : Plan → StateM σ Bool := fun _ => pure true
  leave : Plan → StateM σ Bool := fun _ => pure true
  visit : Plan → StateM σ Bool := fun _ => pure true
  enterExpr : Expr → StateM σ Bool := fun _ => pure true
  leaveExpr : Expr → StateM σ Bool := fun _ => pure true
  visitExpr : Expr → StateM σ Bool := fun _ => pure true

variable {σ : Type}

/-- Two walks one after the other, the second one only after an answer `true` of the first. -/
def andThen (first next : StateM σ Bool) : StateM σ Bool := do
  if ← first then next else pure false

namespace Visitor

/-- Enters a plan node, walks what lies below it if it is let in, and leaves it. -/
def around (v : Visitor σ) (p : Plan) (below : StateM σ Bool) : StateM σ Bool := do
  if ← v.enter p then
    let _ ← below
  v.leave p

/-- Enters an expression, walks what lies below it if it is let in, and leaves it. -/
def aroundExpr (v : Visitor σ) (e : Expr) (below : StateM σ Bool) : StateM σ Bool := do
  if ← v.enterExpr e then
    let _ ← below
  v.leaveExpr e

end Visitor

mutual

/-- Walks an expression without the plans of subqueries. -/
def Expr.accept (v : Visitor σ) : Expr → StateM σ Bool
  | .constant value type => v.visitExpr (.constant value type)
  | .parameter position type => v.visitExpr (.parameter position type)
  | .column c => v.visitExpr (.column c)
  | .cast operand type => v.aroundExpr (.cast operand type) (operand.accept v)
  | .call f operands => v.aroundExpr (.call f operands) (Expr.acceptAll v operands)
  | .aggregate f none => v.aroundExpr (.aggregate f none) (pure true)
  | .aggregate f (some operand) => v.aroundExpr (.aggregate f (some operand)) (operand.accept v)
  | .comparison c left right => v.aroundExpr (.comparison c left right) (andThen (left.accept v) (right.accept v))
  | .logical op operands => v.aroundExpr (.logical op operands) (Expr.acceptAll v operands)
  | .inList operand list => v.aroundExpr (.inList operand list) (andThen (operand.accept v) (Expr.acceptAll v list))
  | .subquery kind plan type => v.aroundExpr (.subquery kind plan type) (pure true)
  | .special f operands => v.aroundExpr (.special f operands) (Expr.acceptAll v operands)

/-- Walks expressions up to the first that answers `false`. -/
def Expr.acceptAll (v : Visitor σ) : List Expr → StateM σ Bool
  | [] => pure true
  | e :: es => andThen (e.accept v) (Expr.acceptAll v es)

end

/-- Walks the nodes of a plan, but not its expressions. -/
def Plan.accept (v : Visitor σ) : Plan → StateM σ Bool
  | .leaf id op => v.visit (.leaf id op)
  | .probe id op operands => v.around (.probe id op operands) (pure true)
  | .values id rows => v.around (.values id rows) (pure true)
  | .unary id op input operands => v.around (.unary id op input operands) (input.accept v)
  | .binary id op left right operands =>
    v.around (.binary id op left right operands) (andThen (left.accept v) (right.accept v))
  | .aggregate id op phase input => v.around (.aggregate id op phase input) (input.accept v)
  | .tableJoins id group input scans => v.around (.tableJoins id group input scans) (input.accept v)
  | .joinTree id group nodes conditions none => v.around (.joinTree id group nodes conditions none) (pure true)
  | .joinTree id group nodes conditions (some scan) =>
    v.around (.joinTree id group nodes conditions (some scan)) (scan.accept v)
  | .indexScan s => v.around (.indexScan s) (pure true)

mutual

/-- Walks an expression and the plans of its subqueries. -/
def Expr.acceptDeep (v : Visitor σ) : Expr → StateM σ Bool
  | .constant value type => v.visitExpr (.constant value type)
  | .parameter position type => v.visitExpr (.parameter position type)
  | .column c => v.visitExpr (.column c)
  | .cast operand type => v.aroundExpr (.cast operand type) (operand.acceptDeep v)
  | .call f operands => v.aroundExpr (.call f operands) (Expr.acceptDeepAll v operands)
  | .aggregate f none => v.aroundExpr (.aggregate f none) (pure true)
  | .aggregate f (some operand) => v.aroundExpr (.aggregate f (some operand)) (operand.acceptDeep v)
  | .comparison c left right =>
    v.aroundExpr (.comparison c left right) (andThen (left.acceptDeep v) (right.acceptDeep v))
  | .logical op operands => v.aroundExpr (.logical op operands) (Expr.acceptDeepAll v operands)
  | .inList operand list =>
    v.aroundExpr (.inList operand list) (andThen (operand.acceptDeep v) (Expr.acceptDeepAll v list))
  | .subquery kind plan type => v.aroundExpr (.subquery kind plan type) (plan.acceptDeep v)
  | .special f operands => v.aroundExpr (.special f operands) (Expr.acceptDeepAll v operands)

/-- Walks expressions up to the first that answers `false`. -/
def Expr.acceptDeepAll (v : Visitor σ) : List Expr → StateM σ Bool
  | [] => pure true
  | e :: es => andThen (e.acceptDeep v) (Expr.acceptDeepAll v es)

/-- Walks the expressions of some rows up to the first that answers `false`. -/
def Expr.acceptDeepRows (v : Visitor σ) : List (List Expr) → StateM σ Bool
  | [] => pure true
  | row :: rows => andThen (Expr.acceptDeepAll v row) (Expr.acceptDeepRows v rows)

/-- Walks the comparands of a scan up to the first that answers `false`. -/
def Scan.acceptDeep (v : Visitor σ) : Scan → StateM σ Bool
  | .single _ ⟨_, _, _, _, equality, unions, low, high⟩ =>
    andThen (Expr.acceptDeepAll v equality) (andThen (Expr.acceptDeepRows v unions) (andThen
      (match low with
        | some ⟨e, _⟩ => e.acceptDeep v
        | none => pure true)
      (match high with
        | some ⟨e, _⟩ => e.acceptDeep v
        | none => pure true)))
  | .intersect _ _ output selector => andThen (output.acceptDeep v) (selector.acceptDeep v)

/-- Walks a plan with its expressions: the inputs of a node, then its operands, then the plans inside of the operands as
they are met. -/
def Plan.acceptDeep (v : Visitor σ) : Plan → StateM σ Bool
  | .leaf id op => v.visit (.leaf id op)
  | .probe id op operands => v.around (.probe id op operands) (Expr.acceptDeepAll v operands)
  | .values id rows => v.around (.values id rows) (Expr.acceptDeepRows v rows)
  | .unary id op input operands =>
    v.around (.unary id op input operands) (andThen (input.acceptDeep v) (Expr.acceptDeepAll v operands))
  | .binary id op left right operands =>
    v.around (.binary id op left right operands)
      (andThen (left.acceptDeep v) (andThen (right.acceptDeep v) (Expr.acceptDeepAll v operands)))
  | .aggregate id op phase input =>
    v.around (.aggregate id op phase input) (andThen (input.acceptDeep v)
      (match phase with
        | .bare groupBy => Expr.acceptDeepAll v groupBy
        | .resolved groupBy aggregates => andThen (Expr.acceptDeepAll v groupBy) (Expr.acceptDeepAll v aggregates)
        | .split _ => pure true))
  | .tableJoins id group input scans => v.around (.tableJoins id group input scans) (input.acceptDeep v)
  | .joinTree id group nodes conditions none =>
    v.around (.joinTree id group nodes conditions none) (Expr.acceptDeepRows v conditions)
  | .joinTree id group nodes conditions (some scan) =>
    v.around (.joinTree id group nodes conditions (some scan))
      (andThen (scan.acceptDeep v) (Expr.acceptDeepRows v conditions))
  | .indexScan s => v.around (.indexScan s) (s.acceptDeep v)

end

/-! ## The tables of an expression -/

/-- Puts an index into a list in ascending order, once. -/
def insertSource (s : SourceId) : List SourceId → List SourceId
  | [] => [s]
  | t :: ts =>
    if s = t then t :: ts
    else if s.index < t.index then s :: t :: ts
    else t :: insertSource s ts

/-- Collects the table sources of the columns that it visits. -/
def sourceCollector : Visitor (List SourceId) where
  visitExpr e := do
    match e.tableSource? with
    | some s => modify (insertSource s)
    | none => pure ()
    pure true

/-- The table sources of the columns in an expression, in ascending order. Subqueries are left out. -/
def Expr.referencedTables (e : Expr) : List SourceId := ((e.accept sourceCollector).run []).2

end ClusterPlan
