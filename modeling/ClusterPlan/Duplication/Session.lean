import ClusterPlan.Context.Group
import ClusterPlan.Context.Table

/-!
# Duplication sessions

A session copies entities of a context into the same context, each at most once: a later request for the same entity gets
the copy that is there. An entity is entered before what it refers to is copied, so that entities that refer to each other
are copied in turn. Plan nodes and conditions get new numbers; a plan node that is copied again gets a number of its own.
-/

namespace ClusterPlan

/-- A session: the context that it works on, the supply of numbers, and for each kind the copies made so far. -/
structure Duplication where
  ctx : Context
  supply : Supply
  trees : List (TreeId × TreeId) := []
  /-- Copies of nodes that are not in the list of their tree. -/
  looseNodes : List (NodeId × NodeId) := []
  sources : List (SourceId × SourceId) := []
  groups : List (GroupId × GroupId) := []
  groupJoins : List (GroupJoinId × GroupJoinId) := []
  keyJoins : List (KeyJoinId × KeyJoinId) := []
  hashTables : List (HashTableId × HashTableId) := []
  bloomFilters : List (BloomFilterId × BloomFilterId) := []
  planNodes : List (Int × Int) := []
  /-- The new numbers that a copied plan node has. -/
  used : List Int := []
  conditions : List (ConditionId × ConditionId) := []

/-- An action of a session. -/
abbrev Copying (α : Type) := StateM Duplication α

namespace Duplication

/-- Draws a number. -/
def draw : Copying Int := do
  let s ← get
  let (id, supply) := s.supply.draw
  set { s with supply }
  pure id

/-- The number that stands for a plan node, for columns that refer to it as well as for the node. -/
def nodeNumber (old : Int) : Copying Int := do
  match (← get).planNodes.lookup old with
  | some new => pure new
  | none => do
    let new ← draw
    modify fun s => { s with planNodes := (old, new) :: s.planNodes }
    pure new

/-- The number of a copied plan node. Only the first copy of a node has the number that stands for it. -/
def copyNumber (old : Int) : Copying Int := do
  let mapped ← nodeNumber old
  if mapped ∈ (← get).used then draw
  else do
    modify fun s => { s with used := mapped :: s.used }
    pure mapped

def condition (old : ConditionId) : Copying ConditionId := do
  match (← get).conditions.lookup old with
  | some new => pure new
  | none => do
    let new ← draw
    modify fun s => { s with conditions := (old, ⟨new⟩) :: s.conditions }
    pure ⟨new⟩

/-- The copy of a reference inside a list that is copied from a given place on; other references stay. -/
def relink (old : List NodeId) (start : Nat) (n : NodeId) : NodeId :=
  match old.findIdx? (· == n) with
  | some i => ⟨start + i⟩
  | none => n

/-- A node in a copied tree. The copies of its uses will be entered when they are made. -/
def relinkNode (tree : TreeId) (link : NodeId → NodeId) (n : TableNode) : TableNode :=
  { tree, table := n.table, parent := n.parent.map link, children := n.children.map link, uses := [] }

/-- Copies a tree with all its nodes. -/
def tree (old : TreeId) : Copying TreeId := do
  let s ← get
  match s.trees.lookup old with
  | some new => pure new
  | none => do
    let t := s.ctx.trees.get old
    let link := relink t.nodes s.ctx.nodes.size
    let (new, trees) := s.ctx.trees.push { group := t.group, root := t.root.map link, nodes := t.nodes.map link }
    let nodes := t.nodes.foldl (fun (nodes : Arena .node TableNode) n =>
      (nodes.push (relinkNode new link (s.ctx.nodes.get n))).2) s.ctx.nodes
    set { s with ctx := { s.ctx with trees, nodes }, trees := (old, new) :: s.trees }
    pure new

/-- Copies a node with its tree. A node that is not in the list of its tree is copied alone. -/
def node (old : NodeId) : Copying NodeId := do
  let oldTree := ((← get).ctx.nodes.get old).tree
  let newTree ← tree oldTree
  let s ← get
  match (s.ctx.trees.get oldTree).position? old with
  | some i => pure (((s.ctx.trees.get newTree).nodes[i]?).getD old)
  | none =>
    match s.looseNodes.lookup old with
    | some new => pure new
    | none => do
      let (new, nodes) := s.ctx.nodes.push { tree := newTree, table := (s.ctx.nodes.get old).table }
      set { s with ctx := { s.ctx with nodes }, looseNodes := (old, new) :: s.looseNodes }
      pure new

mutual

/-- Copies a source, its group and the join to its parent. Each entity that is met for the first time takes one step of
the fuel. -/
def sourceWith : Nat → SourceId → Copying SourceId
  | 0, old => pure old
  | fuel + 1, old => do
    let s ← get
    match s.sources.lookup old with
    | some new => pure new
    | none => do
      let x := s.ctx.sources.get old
      let (new, sources) := s.ctx.sources.push x
      set { s with ctx := { s.ctx with sources }, sources := (old, new) :: s.sources }
      let n ← node x.node
      let group ← x.group.mapM (groupWith fuel)
      let parentJoin ← x.parentJoin.mapM (groupJoinWith fuel)
      modify fun s => { s with ctx := { s.ctx with
        sources := s.ctx.sources.set new { x with node := n, group, parentJoin }
        nodes := s.ctx.nodes.modify n (·.addUse new) } }
      pure new

/-- Copies a group with its sources and joins, and the group that it was merged into. -/
def groupWith : Nat → GroupId → Copying GroupId
  | 0, old => pure old
  | fuel + 1, old => do
    let s ← get
    match s.groups.lookup old with
    | some new => pure new
    | none => do
      let g := s.ctx.groups.get old
      let (new, groups) := s.ctx.groups.push g
      set { s with ctx := { s.ctx with groups }, groups := (old, new) :: s.groups }
      let tables ← g.tables.mapM (sourceWith fuel)
      let joins ← g.joins.mapM (groupJoinWith fuel)
      let mergedInto ← g.mergedInto.mapM (groupWith fuel)
      modify fun s => { s with ctx := { s.ctx with groups := s.ctx.groups.set new { tables, joins, mergedInto } } }
      pure new

/-- Copies a group join with its group and its sources. Its conditions belong to the copy. -/
def groupJoinWith : Nat → GroupJoinId → Copying GroupJoinId
  | 0, old => pure old
  | fuel + 1, old => do
    let s ← get
    match s.groupJoins.lookup old with
    | some new => pure new
    | none => do
      let j := s.ctx.groupJoins.get old
      let (new, groupJoins) := s.ctx.groupJoins.push j
      set { s with ctx := { s.ctx with groupJoins }, groupJoins := (old, new) :: s.groupJoins }
      let group ← groupWith fuel j.group
      let parent ← sourceWith fuel j.parent
      let child ← sourceWith fuel j.child
      let conditions ← j.conditions.mapM condition
      modify fun s =>
        let ctx := s.ctx.registerConditions conditions new
        { s with ctx := { ctx with
          groupJoins := ctx.groupJoins.set new { j with group, parent, child, conditions } } }
      pure new

end

/-- More steps than there are sources, groups and group joins to be met. -/
def fuel (s : Duplication) : Nat := s.ctx.sources.size + s.ctx.groups.size + s.ctx.groupJoins.size + 1

def source (old : SourceId) : Copying SourceId := do sourceWith (← get).fuel old

def group (old : GroupId) : Copying GroupId := do groupWith (← get).fuel old

def groupJoin (old : GroupJoinId) : Copying GroupJoinId := do groupJoinWith (← get).fuel old

/-- Copies a join along a foreign key with its sources. -/
def keyJoin (old : KeyJoinId) : Copying KeyJoinId := do
  let s ← get
  match s.keyJoins.lookup old with
  | some new => pure new
  | none => do
    let j := s.ctx.keyJoins.get old
    let (new, keyJoins) := s.ctx.keyJoins.push j
    set { s with ctx := { s.ctx with keyJoins }, keyJoins := (old, new) :: s.keyJoins }
    let parent ← source j.parent
    let child ← source j.child
    let conditions ← j.conditions.mapM condition
    modify fun s => { s with ctx := { s.ctx with
      keyJoins := s.ctx.keyJoins.set new { j with parent, child, conditions } } }
    pure new

def hashTable (old : HashTableId) : Copying HashTableId := do
  let s ← get
  match s.hashTables.lookup old with
  | some new => pure new
  | none => do
    let (new, hashTables) := s.ctx.hashTables.push (s.ctx.hashTables.get old)
    set { s with ctx := { s.ctx with hashTables }, hashTables := (old, new) :: s.hashTables }
    pure new

def bloomFilter (old : BloomFilterId) : Copying BloomFilterId := do
  let s ← get
  match s.bloomFilters.lookup old with
  | some new => pure new
  | none => do
    let (new, bloomFilters) := s.ctx.bloomFilters.push (s.ctx.bloomFilters.get old)
    set { s with ctx := { s.ctx with bloomFilters }, bloomFilters := (old, new) :: s.bloomFilters }
    pure new

end Duplication

end ClusterPlan
