import ClusterPlan.Expr.Basic

/-!
# Finding nodes by id

`Plan.find?` looks at a node, then through its inputs, then through the subqueries in its operands. `Plan.modify?` changes
the node that `Plan.find?` finds and nothing else.
-/

namespace ClusterPlan

mutual

/-- The first node of an id in the subqueries of an expression. -/
def Expr.findPlan? (id : Int) : Expr → Option Plan
  | .constant _ _ | .parameter _ _ | .column _ | .aggregate _ none => none
  | .cast operand _ => operand.findPlan? id
  | .call _ operands | .logical _ operands | .special _ operands => Expr.findPlanIn? id operands
  | .aggregate _ (some operand) => operand.findPlan? id
  | .comparison _ left right => (left.findPlan? id).or (right.findPlan? id)
  | .inList operand list => (operand.findPlan? id).or (Expr.findPlanIn? id list)
  | .subquery _ plan _ => plan.find? id

def Expr.findPlanIn? (id : Int) : List Expr → Option Plan
  | [] => none
  | e :: es => (e.findPlan? id).or (Expr.findPlanIn? id es)

def Expr.findPlanInRows? (id : Int) : List (List Expr) → Option Plan
  | [] => none
  | row :: rows => (Expr.findPlanIn? id row).or (Expr.findPlanInRows? id rows)

def Expr.findPlanInBound? (id : Int) : Option (Bound Expr) → Option Plan
  | none => none
  | some ⟨e, _⟩ => e.findPlan? id

/-- The first node of an id in the comparands of a scan. -/
def Scan.findPlan? (id : Int) : Scan → Option Plan
  | .single _ ⟨_, _, _, _, equality, unions, low, high⟩ =>
    (Expr.findPlanIn? id equality).or ((Expr.findPlanInRows? id unions).or
      ((Expr.findPlanInBound? id low).or (Expr.findPlanInBound? id high)))
  | .intersect _ _ output selector => (output.findPlan? id).or (selector.findPlan? id)

/-- The first node of an id: the plan itself, then its inputs, then the subqueries in its operands. -/
def Plan.find? (id : Int) : Plan → Option Plan
  | .leaf i op => if i = id then some (.leaf i op) else none
  | .probe i op operands => if i = id then some (.probe i op operands) else Expr.findPlanIn? id operands
  | .values i rows => if i = id then some (.values i rows) else Expr.findPlanInRows? id rows
  | .unary i op input operands =>
    if i = id then some (.unary i op input operands)
    else (input.find? id).or (Expr.findPlanIn? id operands)
  | .binary i op left right operands =>
    if i = id then some (.binary i op left right operands)
    else (left.find? id).or ((right.find? id).or (Expr.findPlanIn? id operands))
  | .aggregate i op phase input =>
    if i = id then some (.aggregate i op phase input)
    else (input.find? id).or
      (match phase with
        | .bare groupBy => Expr.findPlanIn? id groupBy
        | .resolved groupBy aggregates => (Expr.findPlanIn? id groupBy).or (Expr.findPlanIn? id aggregates)
        | .split _ => none)
  | .tableJoins i group input scans =>
    if i = id then some (.tableJoins i group input scans) else input.find? id
  | .joinTree i group nodes conditions none =>
    if i = id then some (.joinTree i group nodes conditions none) else Expr.findPlanInRows? id conditions
  | .joinTree i group nodes conditions (some scan) =>
    if i = id then some (.joinTree i group nodes conditions (some scan))
    else (scan.find? id).or (Expr.findPlanInRows? id conditions)
  | .indexScan s => if s.id = id then some (.indexScan s) else s.findPlan? id

end


mutual

/-- Changes the first node of an id in the subqueries of an expression. -/
def Expr.modifyPlan? (id : Int) (f : Plan → Plan) : Expr → Option Expr
  | .constant _ _ | .parameter _ _ | .column _ | .aggregate _ none => none
  | .cast operand type => (operand.modifyPlan? id f).map (.cast · type)
  | .call h operands => (Expr.modifyPlanIn? id f operands).map (.call h)
  | .logical op operands => (Expr.modifyPlanIn? id f operands).map (.logical op)
  | .special h operands => (Expr.modifyPlanIn? id f operands).map (.special h)
  | .aggregate h (some operand) => (operand.modifyPlan? id f).map (.aggregate h ∘ some)
  | .comparison c left right =>
    ((left.modifyPlan? id f).map (.comparison c · right)).or ((right.modifyPlan? id f).map (.comparison c left))
  | .inList operand list =>
    ((operand.modifyPlan? id f).map (.inList · list)).or ((Expr.modifyPlanIn? id f list).map (.inList operand))
  | .subquery kind plan type => (plan.modify? id f).map (.subquery kind · type)

def Expr.modifyPlanIn? (id : Int) (f : Plan → Plan) : List Expr → Option (List Expr)
  | [] => none
  | e :: es => ((e.modifyPlan? id f).map (· :: es)).or ((Expr.modifyPlanIn? id f es).map (e :: ·))

def Expr.modifyPlanInRows? (id : Int) (f : Plan → Plan) : List (List Expr) → Option (List (List Expr))
  | [] => none
  | row :: rows =>
    ((Expr.modifyPlanIn? id f row).map (· :: rows)).or ((Expr.modifyPlanInRows? id f rows).map (row :: ·))

def Expr.modifyPlanInBound? (id : Int) (f : Plan → Plan) : Option (Bound Expr) → Option (Option (Bound Expr))
  | none => none
  | some ⟨e, inclusive⟩ => (e.modifyPlan? id f).map fun e => some ⟨e, inclusive⟩

/-- Changes the first node of an id in the comparands of a scan. -/
def Scan.modifyPlan? (id : Int) (f : Plan → Plan) : Scan → Option Scan
  | .single head ⟨index, withUnions, ascending, ordering, equality, unions, low, high⟩ =>
    ((Expr.modifyPlanIn? id f equality).map
      (.single head ⟨index, withUnions, ascending, ordering, ·, unions, low, high⟩)).or
    (((Expr.modifyPlanInRows? id f unions).map
      (.single head ⟨index, withUnions, ascending, ordering, equality, ·, low, high⟩)).or
    (((Expr.modifyPlanInBound? id f low).map
      (.single head ⟨index, withUnions, ascending, ordering, equality, unions, ·, high⟩)).or
    ((Expr.modifyPlanInBound? id f high).map
      (.single head ⟨index, withUnions, ascending, ordering, equality, unions, low, ·⟩))))
  | .intersect head n output selector =>
    ((output.modifyPlan? id f).map (.intersect head n · selector)).or
      ((selector.modifyPlan? id f).map (.intersect head n output))

/-- Changes the node that `Plan.find?` finds; nothing comes back if there is none. -/
def Plan.modify? (id : Int) (f : Plan → Plan) : Plan → Option Plan
  | .leaf i op => if i = id then some (f (.leaf i op)) else none
  | .probe i op operands =>
    if i = id then some (f (.probe i op operands))
    else (Expr.modifyPlanIn? id f operands).map (.probe i op)
  | .values i rows =>
    if i = id then some (f (.values i rows)) else (Expr.modifyPlanInRows? id f rows).map (.values i)
  | .unary i op input operands =>
    if i = id then some (f (.unary i op input operands))
    else ((input.modify? id f).map (.unary i op · operands)).or
      ((Expr.modifyPlanIn? id f operands).map (.unary i op input))
  | .binary i op left right operands =>
    if i = id then some (f (.binary i op left right operands))
    else ((left.modify? id f).map (.binary i op · right operands)).or
      (((right.modify? id f).map (.binary i op left · operands)).or
        ((Expr.modifyPlanIn? id f operands).map (.binary i op left right)))
  | .aggregate i op phase input =>
    if i = id then some (f (.aggregate i op phase input))
    else ((input.modify? id f).map (.aggregate i op phase)).or
      (match phase with
        | .bare groupBy => (Expr.modifyPlanIn? id f groupBy).map fun es => .aggregate i op (.bare es) input
        | .resolved groupBy aggregates =>
          ((Expr.modifyPlanIn? id f groupBy).map fun es => .aggregate i op (.resolved es aggregates) input).or
            ((Expr.modifyPlanIn? id f aggregates).map fun es => .aggregate i op (.resolved groupBy es) input)
        | .split _ => none)
  | .tableJoins i group input scans =>
    if i = id then some (f (.tableJoins i group input scans))
    else (input.modify? id f).map (.tableJoins i group · scans)
  | .joinTree i group nodes conditions none =>
    if i = id then some (f (.joinTree i group nodes conditions none))
    else (Expr.modifyPlanInRows? id f conditions).map (.joinTree i group nodes · none)
  | .joinTree i group nodes conditions (some scan) =>
    if i = id then some (f (.joinTree i group nodes conditions (some scan)))
    else ((scan.modify? id f).map (.joinTree i group nodes conditions ∘ some)).or
      ((Expr.modifyPlanInRows? id f conditions).map (.joinTree i group nodes · (some scan)))
  | .indexScan s => if s.id = id then some (f (.indexScan s)) else (s.modifyPlan? id f).map .indexScan

end

/-- The number of nodes of a plan. Subqueries do not count. -/
def Plan.nodeCount : Plan → Nat
  | .leaf _ _ | .probe _ _ _ | .values _ _ | .indexScan _ | .joinTree _ _ _ _ none => 1
  | .unary _ _ input _ | .aggregate _ _ _ input | .tableJoins _ _ input _ => 1 + input.nodeCount
  | .binary _ _ left right _ => 1 + left.nodeCount + right.nodeCount
  | .joinTree _ _ _ _ (some scan) => 1 + scan.nodeCount

end ClusterPlan
