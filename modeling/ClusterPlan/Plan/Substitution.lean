import ClusterPlan.Expr.Basic

/-!
# Substitution in the expressions of a plan

A substitution puts an expression in the place of each one that it is given. It is given the operands of an expression before
the expression itself, or else the expression first and then the operands of what it put in its place. The inputs of a plan
node come before its operands, and the plan of a subquery counts as below the subquery.
-/

namespace ClusterPlan

/-- What to put in place of an expression, and whether its operands come first. -/
structure Substitution (σ : Type) where
  operandsFirst : σ → Expr → Bool := fun _ _ => true
  replace : Expr → StateM σ Expr

variable {σ : Type}

/-- Replaces one expression, given the expression with its operands replaced. Where the expression comes before its
operands, `again` replaces the operands of what is put in its place. -/
def Substitution.around (s : Substitution σ) (again : Expr → StateM σ Expr) (e : Expr) (below : StateM σ Expr) :
    StateM σ Expr := do
  if s.operandsFirst (← get) e then
    let e ← below
    s.replace e
  else
    let e ← s.replace e
    again e

mutual

/-- Replaces an expression and its operands, given how to go on with the operands of what takes the place of one. -/
def Expr.substituteWith (s : Substitution σ) (again : Expr → StateM σ Expr) : Expr → StateM σ Expr
  | .constant value type => s.around again (.constant value type) (pure (.constant value type))
  | .parameter position type => s.around again (.parameter position type) (pure (.parameter position type))
  | .column c => s.around again (.column c) (pure (.column c))
  | .cast operand type => s.around again (.cast operand type) do
    let operand ← operand.substituteWith s again
    pure (.cast operand type)
  | .call f operands => s.around again (.call f operands) do
    let operands ← Expr.substituteAllWith s again operands
    pure (.call f operands)
  | .aggregate f none => s.around again (.aggregate f none) (pure (.aggregate f none))
  | .aggregate f (some operand) => s.around again (.aggregate f (some operand)) do
    let operand ← operand.substituteWith s again
    pure (.aggregate f (some operand))
  | .comparison c left right => s.around again (.comparison c left right) do
    let left ← left.substituteWith s again
    let right ← right.substituteWith s again
    pure (.comparison c left right)
  | .logical op operands => s.around again (.logical op operands) do
    let operands ← Expr.substituteAllWith s again operands
    pure (.logical op operands)
  | .inList operand list => s.around again (.inList operand list) do
    let operand ← operand.substituteWith s again
    let list ← Expr.substituteAllWith s again list
    pure (.inList operand list)
  | .subquery kind plan type => s.around again (.subquery kind plan type) do
    let plan ← plan.substituteWith s again
    pure (.subquery kind plan type)
  | .special f operands => s.around again (.special f operands) do
    let operands ← Expr.substituteAllWith s again operands
    pure (.special f operands)

/-- Replaces expressions from left to right. -/
def Expr.substituteAllWith (s : Substitution σ) (again : Expr → StateM σ Expr) : List Expr → StateM σ (List Expr)
  | [] => pure []
  | e :: es => do
    let e ← e.substituteWith s again
    let es ← Expr.substituteAllWith s again es
    pure (e :: es)

/-- Replaces the expressions of rows from left to right. -/
def Expr.substituteRowsWith (s : Substitution σ) (again : Expr → StateM σ Expr) :
    List (List Expr) → StateM σ (List (List Expr))
  | [] => pure []
  | row :: rows => do
    let row ← Expr.substituteAllWith s again row
    let rows ← Expr.substituteRowsWith s again rows
    pure (row :: rows)

/-- Replaces the comparands of a scan. -/
def Scan.substituteWith (s : Substitution σ) (again : Expr → StateM σ Expr) : Scan → StateM σ Scan
  | .single head ⟨index, withUnions, ascending, ordering, equality, unions, low, high⟩ => do
    let equality ← Expr.substituteAllWith s again equality
    let unions ← Expr.substituteRowsWith s again unions
    let low ← match low with
      | some ⟨e, inclusive⟩ => (do return some ⟨← e.substituteWith s again, inclusive⟩)
      | none => pure none
    let high ← match high with
      | some ⟨e, inclusive⟩ => (do return some ⟨← e.substituteWith s again, inclusive⟩)
      | none => pure none
    pure (.single head ⟨index, withUnions, ascending, ordering, equality, unions, low, high⟩)
  | .intersect head n output selector => do
    let output ← output.substituteWith s again
    let selector ← selector.substituteWith s again
    pure (.intersect head n output selector)

/-- Replaces the expressions of a plan, those of the inputs first. -/
def Plan.substituteWith (s : Substitution σ) (again : Expr → StateM σ Expr) : Plan → StateM σ Plan
  | .leaf id op => pure (.leaf id op)
  | .probe id op operands => do
    let operands ← Expr.substituteAllWith s again operands
    pure (.probe id op operands)
  | .values id rows => do
    let rows ← Expr.substituteRowsWith s again rows
    pure (.values id rows)
  | .unary id op input operands => do
    let input ← input.substituteWith s again
    let operands ← Expr.substituteAllWith s again operands
    pure (.unary id op input operands)
  | .binary id op left right operands => do
    let left ← left.substituteWith s again
    let right ← right.substituteWith s again
    let operands ← Expr.substituteAllWith s again operands
    pure (.binary id op left right operands)
  | .aggregate id op phase input => do
    let input ← input.substituteWith s again
    match phase with
    | .bare groupBy => do
      let groupBy ← Expr.substituteAllWith s again groupBy
      pure (.aggregate id op (.bare groupBy) input)
    | .resolved groupBy aggregates => do
      let groupBy ← Expr.substituteAllWith s again groupBy
      let aggregates ← Expr.substituteAllWith s again aggregates
      pure (.aggregate id op (.resolved groupBy aggregates) input)
    | .split info => pure (.aggregate id op (.split info) input)
  | .tableJoins id group input scans => do
    let input ← input.substituteWith s again
    pure (.tableJoins id group input scans)
  | .joinTree id group nodes conditions none => do
    let conditions ← Expr.substituteRowsWith s again conditions
    pure (.joinTree id group nodes conditions none)
  | .joinTree id group nodes conditions (some scan) => do
    let scan ← scan.substituteWith s again
    let conditions ← Expr.substituteRowsWith s again conditions
    pure (.joinTree id group nodes conditions (some scan))
  | .indexScan scan => do
    let scan ← scan.substituteWith s again
    pure (.indexScan scan)

end

/-- Replaces the operands of an expression, but not the expression itself. -/
def Expr.substituteOperandsWith (s : Substitution σ) (again : Expr → StateM σ Expr) : Expr → StateM σ Expr
  | .cast operand type => do
    let operand ← operand.substituteWith s again
    pure (.cast operand type)
  | .call f operands => do
    let operands ← Expr.substituteAllWith s again operands
    pure (.call f operands)
  | .aggregate f (some operand) => do
    let operand ← operand.substituteWith s again
    pure (.aggregate f (some operand))
  | .comparison c left right => do
    let left ← left.substituteWith s again
    let right ← right.substituteWith s again
    pure (.comparison c left right)
  | .logical op operands => do
    let operands ← Expr.substituteAllWith s again operands
    pure (.logical op operands)
  | .inList operand list => do
    let operand ← operand.substituteWith s again
    let list ← Expr.substituteAllWith s again list
    pure (.inList operand list)
  | .subquery kind plan type => do
    let plan ← plan.substituteWith s again
    pure (.subquery kind plan type)
  | .special f operands => do
    let operands ← Expr.substituteAllWith s again operands
    pure (.special f operands)
  | e => pure e

/-- Replaces the operands of an expression that was put in the place of another one. A substitution that comes before the
operands can go on without end, so that only `limit` replacements are followed one inside the other. -/
def Expr.substituteOperands (s : Substitution σ) : Nat → Expr → StateM σ Expr
  | 0, e => pure e
  | limit + 1, e => e.substituteOperandsWith s (Expr.substituteOperands s limit)

/-- Replaces an expression and its operands, following at most `limit` replacements one inside the other. -/
def Expr.substitute (s : Substitution σ) (limit : Nat) (e : Expr) : StateM σ Expr :=
  e.substituteWith s (Expr.substituteOperands s limit)

/-- Replaces the expressions of a plan, following at most `limit` replacements one inside the other. -/
def Plan.substitute (s : Substitution σ) (limit : Nat) (p : Plan) : StateM σ Plan :=
  p.substituteWith s (Expr.substituteOperands s limit)

end ClusterPlan
