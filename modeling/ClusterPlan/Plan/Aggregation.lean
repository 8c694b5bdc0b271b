import ClusterPlan.Expr.Basic
import ClusterPlan.Error

/-!
# Aggregations

An aggregation takes grouping expressions, then aggregates, whose places follow those of the grouping expressions and never
change. `Aggregation.splitOffProject` hands all operands to the projection below it, once; from then on only the functions
are known.
-/

namespace ClusterPlan

/-- An aggregation without its input. -/
structure Aggregation where
  id : Int
  op : AggregateOp
  phase : AggregatePhase Expr

/-- A field of an aggregation. -/
inductive AggregateField where
  | groupBy (e : Expr)
  | aggregate (f : AggregateHead) (operand : Option Expr)

/-- A call of COUNT without an operand. -/
def AggregateHead.countStar : AggregateHead := ⟨"COUNT", false, none, none, some (.notNull .bigInt)⟩

namespace AggregatePhase

variable {ε : Type}

def groupByCount : AggregatePhase ε → Nat
  | bare groupBy | resolved groupBy _ => groupBy.length
  | split info => info.groupBy

def aggregateCount : AggregatePhase ε → Nat
  | bare _ => 0
  | resolved _ aggregates => aggregates.length
  | split info => info.functions.length

def fieldCount (p : AggregatePhase ε) : Nat := p.groupByCount + p.aggregateCount

end AggregatePhase

namespace Aggregation

/-- A new aggregation. Without grouping expressions its method is known. -/
def ofGroupBy (id : Int) (groupBy : List Expr) : Aggregation :=
  { id, op := { method := if groupBy.isEmpty then some .ungrouped else none }, phase := .bare groupBy }

/-- The complaint that a part is gone. -/
def gone (a : Aggregation) (part : AggregatePart) : PlanError := .internal (.goneAfterSplit a.id part)

/-- The grouping expressions. -/
def groupBy (a : Aggregation) : Except PlanError (List Expr) :=
  match a.phase with
  | .bare groupBy | .resolved groupBy _ => .ok groupBy
  | .split _ => .error (a.gone .groupBy)

/-- The aggregates. -/
def aggregates (a : Aggregation) : Except PlanError (List Expr) :=
  match a.phase with
  | .bare _ => .ok []
  | .resolved _ aggregates => .ok aggregates
  | .split _ => .error (a.gone .aggregateFields)

/-- Adds a grouping expression and gives its position. No more can be added behind aggregates. -/
def addGroupBy (a : Aggregation) (e : Expr) : Except PlanError Nat × Aggregation :=
  match a.phase with
  | .bare groupBy =>
    let method := if a.op.method = some .ungrouped then none else a.op.method
    (.ok groupBy.length, { a with op := { a.op with method }, phase := .bare (groupBy ++ [e]) })
  | .resolved _ _ => (.error (.internal (.groupByAfterAggregates a.id)), a)
  | .split _ => (.error (a.gone .groupBy), a)

/-- Adds an aggregate and gives its position. -/
def addAggregate (a : Aggregation) (f : AggregateHead) (operand : Option Expr) : Except PlanError Nat × Aggregation :=
  let e : Expr := .aggregate f operand
  match a.phase with
  | .bare groupBy => (.ok groupBy.length, { a with phase := .resolved groupBy [e] })
  | .resolved groupBy aggregates =>
    (.ok (groupBy.length + aggregates.length), { a with phase := .resolved groupBy (aggregates ++ [e]) })
  | .split _ => (.error (a.gone .functions), a)

/-- The position of an aggregate of the same structure. -/
def position? (a : Aggregation) (f : AggregateHead) (operand : Option Expr) : Option Nat :=
  match a.phase with
  | .resolved groupBy aggregates =>
    (aggregates.findIdx? (·.same (.aggregate f operand))).map (groupBy.length + ·)
  | _ => none

/-- The field at a position. -/
def field (a : Aggregation) (position : Nat) : Except PlanError AggregateField :=
  let noField : Except PlanError AggregateField := .error (.internal (.noSuchField a.id position))
  match a.phase with
  | .bare groupBy =>
    match groupBy[position]? with
    | some e => .ok (.groupBy e)
    | none => noField
  | .resolved groupBy aggregates =>
    match groupBy[position]? with
    | some e => .ok (.groupBy e)
    | none =>
      match aggregates[position - groupBy.length]? with
      | some (.aggregate f operand) => .ok (.aggregate f operand)
      | _ => noField
  | .split _ => .error (a.gone .groupBy)

/-- The options of the aggregates, one for each. -/
def options (a : Aggregation) : List (Option String) :=
  match a.phase with
  | .bare _ => []
  | .resolved _ aggregates => aggregates.map fun
    | .aggregate f _ => f.option
    | _ => none
  | .split info => info.options

/-- What is left after the split. -/
def splitInfo (a : Aggregation) : Except PlanError SplitAggregates :=
  match a.phase with
  | .split info => .ok info
  | _ => .error (.internal (.notSplit a.id))

/-- The operand that the projection computes for an aggregate: a one for an aggregate without operand, of its type. -/
def operandOf (f : AggregateHead) : Option Expr → Expr
  | some operand => operand
  | none => .constant (.int 1) (f.type.getD (.notNull .bigInt))

/-- The function that is left of an aggregate. -/
def functionOf (f : AggregateHead) (operand : Option Expr) : String :=
  if operand.isNone ∧ f.function = "COUNT" then "COUNT(*)" else f.function

/-- Takes aggregates apart, each into its operand and what is left of it; there is nothing if one of them is no aggregate. -/
def takeApart : List Expr → Option (List Expr × List String × List (Option Overload) × List (Option String))
  | [] => some ([], [], [], [])
  | .aggregate f operand :: es =>
    (takeApart es).map fun (operands, functions, overloads, options) =>
      (operandOf f operand :: operands, functionOf f operand :: functions, f.overload :: overloads,
        f.option :: options)
  | _ :: _ => none

/-- Splits off the operands for a projection: the grouping expressions and then one operand for each aggregate. If a field
behind the grouping expressions is no aggregate then all fields are lost. -/
def splitOffProject (a : Aggregation) : Except PlanError (List Expr) × Aggregation :=
  let take (groupBy aggregates : List Expr) : Except PlanError (List Expr) × Aggregation :=
    match takeApart aggregates with
    | some (operands, functions, overloads, options) =>
      (.ok (groupBy ++ operands), { a with phase := .split ⟨groupBy.length, functions, overloads, options⟩ })
    | none => (.error (.internal (.fieldNotAggregate a.id)), { a with phase := .bare [] })
  match a.phase with
  | .bare groupBy => take groupBy []
  | .resolved groupBy aggregates => take groupBy aggregates
  | .split _ => (.error (.internal (.alreadySplit a.id)), a)

def setMethod (a : Aggregation) (m : AggregateMethod) : Aggregation := { a with op := { a.op with method := some m } }

/-- Does the aggregation read the row count of a table? -/
def requireTableStatus (a : Aggregation) : Except PlanError Unit :=
  if a.op.method = some .countTableStatus then .ok () else .error (.internal (.notTableStatus a.id))

/-- The table whose row count is read. -/
def table (a : Aggregation) : Except PlanError (Option SourceId) := a.requireTableStatus.map fun _ => a.op.table

/-- Sets the table whose row count is read. -/
def setTable (a : Aggregation) (s : SourceId) : Except PlanError Unit × Aggregation :=
  match a.requireTableStatus with
  | .ok () => (.ok (), { a with op := { a.op with table := some s } })
  | .error e => (.error e, a)

end Aggregation

/-- The aggregation of a plan node that is one. -/
def Plan.aggregation? : Plan → Option Aggregation
  | .aggregate id op phase _ => some ⟨id, op, phase⟩
  | _ => none

/-- A plan node with an aggregation in the place of its own. -/
def Plan.withAggregation (p : Plan) (a : Aggregation) : Plan :=
  match p with
  | .aggregate _ _ _ input => .aggregate a.id a.op a.phase input
  | p => p

end ClusterPlan
