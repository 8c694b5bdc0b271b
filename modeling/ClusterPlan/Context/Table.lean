import ClusterPlan.Context.Basic

/-!
# Trees of tables and their uses

`Context.nodeFor` finds the node of a table in a tree or creates it below the node of its parent, which is created first.
-/

namespace ClusterPlan.Context

/-- A new tree without nodes. -/
def addTree (ctx : Context) (group : Option Catalog.Group) : TreeId × Context :=
  let (id, trees) := ctx.trees.push { group }
  (id, { ctx with trees })

/-- The node of a table in a tree. -/
def findNode? (ctx : Context) (tree : TreeId) (table : Catalog.Table) : Option NodeId :=
  (ctx.trees.get tree).nodes.find? fun n => (ctx.nodes.get n).table.same table

/-- Puts a node before the first of its siblings with a greater ordinal. -/
def insertChild (ctx : Context) (node : NodeId) (ordinal : UInt32) (siblings : List NodeId) : List NodeId :=
  let stays := fun c => !decide (ordinal < (ctx.nodes.get c).table.ordinal)
  siblings.takeWhile stays ++ node :: siblings.dropWhile stays

/-- Adds a node for a table below a given node, or as the root of the tree. -/
def addNode (ctx : Context) (tree : TreeId) (table : Catalog.Table) (parent : Option NodeId) : NodeId × Context :=
  let (id, nodes) := ctx.nodes.push { tree, table, parent }
  let ctx := { ctx with nodes }
  let listed (t : TableTree) : TableTree := { t with nodes := t.nodes ++ [id] }
  match parent with
  | some p =>
    let nodes := ctx.nodes.modify p fun n => { n with children := ctx.insertChild id table.ordinal n.children }
    (id, { ctx with nodes, trees := ctx.trees.modify tree listed })
  | none => (id, { ctx with trees := ctx.trees.modify tree fun t => listed { t with root := some id } })

/-- The node of a table in a tree; where it is missing it is added, after those of the tables above it. -/
def nodeFor (ctx : Context) (tree : TreeId) : Catalog.Table → NodeId × Context
  | .root info =>
    match ctx.findNode? tree (.root info) with
    | some n => (n, ctx)
    | none => ctx.addNode tree (.root info) none
  | .child info key parent =>
    match ctx.findNode? tree (.child info key parent) with
    | some n => (n, ctx)
    | none =>
      let (p, ctx) := ctx.nodeFor tree parent
      ctx.addNode tree (.child info key parent) (some p)

/-- A new use of the table of a node. -/
def addSource (ctx : Context) (node : NodeId) (name : String) (required : Bool) : SourceId × Context :=
  let (id, sources) := ctx.sources.push { node, name, required }
  (id, { ctx with sources, nodes := ctx.nodes.modify node (·.addUse id) })

def setRequired (ctx : Context) (s : SourceId) (required : Bool) : Context :=
  { ctx with sources := ctx.sources.modify s fun x => { x with required } }

end ClusterPlan.Context
