import ClusterPlan.Context.Basic
import ClusterPlan.Error

/-!
# Groups and their joins

A group join connects a source to a source of its parent table along the key that clusters the two tables. While it is
accepted its conditions count as implemented by it; once it is rejected they are equalities that still hold.
-/

namespace ClusterPlan.Context

/-- A new group with one source. -/
def addGroup (ctx : Context) (first : SourceId) : GroupId × Context :=
  let (id, groups) := ctx.groups.push { tables := [first] }
  (id, { ctx with groups, sources := ctx.sources.modify first fun s => { s with group := some id } })

/-- Does a catalog join lead from the table of `parent` to that of `child`? -/
def joins (ctx : Context) (join : Catalog.Join) (parent child : SourceId) : Bool :=
  join.parent.same (ctx.tableOf parent) && ((ctx.tableOf child).parent?).any (·.same (ctx.tableOf parent))

/-- Puts a source into a group. -/
def joinGroup (ctx : Context) (group : GroupId) (s : SourceId) : Context :=
  { ctx with
    groups := ctx.groups.modify group (·.addTable s)
    sources := ctx.sources.modify s fun x => { x with group := some group } }

/-- Conditions now belong to a group join, whatever they belonged to before. -/
def registerConditions (ctx : Context) (conditions : List ConditionId) (join : GroupJoinId) : Context :=
  { ctx with conditionJoins := (conditions.map fun c => (c, join)).reverse ++ ctx.conditionJoins }

/-- Adds a group join between two sources, which both come into the group. It must follow the hierarchy of the tables. -/
def addGroupJoin (ctx : Context) (group : GroupId) (parent child : SourceId) (conditions : List ConditionId)
    (join : Catalog.Join) : Except PlanError (GroupJoinId × Context) :=
  if ctx.joins join parent child then
    let (id, groupJoins) := ctx.groupJoins.push { group, parent, child, conditions, join }
    let ctx := { ctx with groupJoins }
    let ctx := ((ctx.registerConditions conditions id).joinGroup group parent).joinGroup group child
    .ok (id, { ctx with
      groups := ctx.groups.modify group fun g => { g with joins := g.joins ++ [id] }
      sources := ctx.sources.modify child fun s => { s with parentJoin := some id } })
  else .error (.internal (.unrelatedGroupJoin join.name (ctx.tableOf parent).name (ctx.tableOf child).name))

/-- Rejects a group join: it leaves its group, and the child no longer has it as the join to its parent. -/
def rejectGroupJoin (ctx : Context) (id : GroupJoinId) : Context :=
  let j := ctx.groupJoins.get id
  if j.rejected then ctx
  else { ctx with
    groupJoins := ctx.groupJoins.modify id fun j => { j with rejected := true }
    groups := ctx.groups.modify j.group fun g => { g with joins := g.joins.filter (· != id) }
    sources := ctx.sources.modify j.child fun s =>
      if s.parentJoin = some id then { s with parentJoin := none } else s }

/-- Merges a group into another one, which takes over its sources and joins. -/
def mergeGroups (ctx : Context) (into other : GroupId) : Context :=
  if into = other then ctx
  else
    let g := ctx.groups.get other
    let groups := ctx.groups.modify other fun _ => { mergedInto := some into }
    let sources := g.tables.foldl (fun sources s => sources.modify s fun x => { x with group := some into }) ctx.sources
    let groupJoins := g.joins.foldl (fun joins j => joins.modify j fun x => { x with group := into }) ctx.groupJoins
    let groups := groups.modify into fun target =>
      let target := g.tables.foldl TableGroup.addTable target
      { target with joins := target.joins ++ g.joins }
    { ctx with groups, sources, groupJoins }

/-- Adds a join along a foreign key. -/
def addKeyJoin (ctx : Context) (parent child : SourceId) (conditions : List ConditionId)
    (foreignKey : Catalog.ForeignKey) : KeyJoinId × Context :=
  let (id, keyJoins) := ctx.keyJoins.push { parent, child, conditions, foreignKey }
  (id, { ctx with keyJoins })

/-- The source that a source's group join leads up to. -/
def parentTable? (ctx : Context) (s : SourceId) : Option SourceId :=
  (ctx.sources.get s).parentJoin.map fun j => (ctx.groupJoins.get j).parent

/-- The group join that a condition belongs to. -/
def joinOfCondition? (ctx : Context) (c : ConditionId) : Option GroupJoinId := ctx.conditionJoins.lookup c

/-- How a comparison is carried out: the group join that it belongs to decides, and else the comparison itself. -/
def implementationOf (ctx : Context) (c : ComparisonHead) : Implementation :=
  match ctx.joinOfCondition? c.id with
  | some j => if (ctx.groupJoins.get j).rejected then .potentialGroupJoin else .groupJoin
  | none => c.implementation

end ClusterPlan.Context
