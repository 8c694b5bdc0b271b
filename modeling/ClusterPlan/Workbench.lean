import ClusterPlan.Catalog.Group
import ClusterPlan.Catalog.Index
import ClusterPlan.Context.Basic
import ClusterPlan.Error
import ClusterPlan.Expr.Basic
import ClusterPlan.Scan.Consumption

/-!
# Workbenches

A workbench holds a plan context and the supply of numbers, and by name the tables, plans and other things that have been
made. The last thing of a name counts. An action on a workbench keeps what it has done even if it fails.
-/

namespace ClusterPlan

structure Workbench where
  ctx : Context := {}
  supply : Supply := {}
  tables : List (String × Catalog.Table) := []
  groups : List (String × Catalog.Group) := []
  indexes : List (String × Catalog.Index) := []
  keys : List (String × Catalog.ForeignKey) := []
  plans : List (String × Plan) := []
  exprs : List (String × Expr) := []
  /-- The ids of plan nodes. A name stays even if the node is moved or changed. -/
  ids : List (String × Int) := []
  conditions : List (String × ConditionId) := []
  counters : List (String × Counts) := []

/-- Why an action fails. -/
inductive BuildError where
  | plan (e : PlanError)
  /-- The action itself makes no sense: something is missing or not of its kind. -/
  | malformed

/-- An action on a workbench. -/
abbrev Building := ExceptT BuildError (StateM Workbench)

namespace Building

def need {α : Type} : Option α → Building α
  | some a => pure a
  | none => throw .malformed

def ofExcept {α : Type} : Except PlanError α → Building α
  | .ok a => pure a
  | .error e => throw (.plan e)

/-- The next number for a plan node or a condition. -/
def draw : Building Int := modifyGet fun b => (b.supply.draw.1, { b with supply := b.supply.draw.2 })

def context : Building Context := return (← get).ctx

/-- Changes the context and gives a result. -/
def onContext {α : Type} (f : Context → α × Context) : Building α :=
  modifyGet fun b =>
    let (a, ctx) := f b.ctx
    (a, { b with ctx })

def setContext (f : Context → Context) : Building Unit := modify fun b => { b with ctx := f b.ctx }

def nameId (name : String) (id : Int) : Building Unit := modify fun b => { b with ids := (name, id) :: b.ids }

def nameCondition (name : String) (c : ConditionId) : Building Unit :=
  modify fun b => { b with conditions := (name, c) :: b.conditions }

/-- Puts a plan under a name in place of the one that is there. -/
def setPlan (name : String) (p : Plan) : Building Unit :=
  modify fun b => { b with plans := (name, p) :: b.plans.filter (·.1 != name) }

/-- Names a plan and its id. -/
def namePlan (name : String) (p : Plan) : Building Unit := do
  setPlan name p
  nameId name p.id

/-- Puts an expression under a name in place of the one that is there. -/
def setExpr (name : String) (e : Expr) : Building Unit :=
  modify fun b => { b with exprs := (name, e) :: b.exprs.filter (·.1 != name) }

/-- Names an expression, and the condition if it is one. -/
def nameExpr (name : String) (e : Expr) : Building Unit := do
  setExpr name e
  if let some c := e.conditionId? then nameCondition name c

def planNamed (name : String) : Building Plan := do need ((← get).plans.lookup name)

def exprNamed (name : String) : Building Expr := do need ((← get).exprs.lookup name)

/-- Removes a plan from its name. -/
def takePlan (name : String) : Building Plan := do
  let p ← planNamed name
  modify fun b => { b with plans := b.plans.filter (·.1 != name) }
  return p

/-- Removes an expression from its name. -/
def takeExpr (name : String) : Building Expr := do
  let e ← exprNamed name
  modify fun b => { b with exprs := b.exprs.filter (·.1 != name) }
  return e

end Building

end ClusterPlan
