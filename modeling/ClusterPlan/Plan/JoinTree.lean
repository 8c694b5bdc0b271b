import ClusterPlan.Plan.Operator

/-!
# Join trees

A join tree is the list of its nodes, the root first. A node has links to its first child and to the next child of its parent;
a new child comes behind the last one, which gets the link to it. `JoinTree.preorder` keeps the nodes that are still to be
visited on a stack, so that a node comes before its children and the children in the order in which they were added.
-/

namespace ClusterPlan.JoinTree

/-- The tree of one table. -/
def ofRoot (root : SourceId) : List JoinTreeNode := [{ table := root }]

/-- A node and its siblings behind it. There are no more links between siblings than nodes. -/
def siblingsFrom (nodes : List JoinTreeNode) : Nat → Option Nat → List Nat
  | 0, _ => []
  | _ + 1, none => []
  | links + 1, some i => i :: siblingsFrom nodes links ((nodes[i]?).bind (·.nextSibling))

/-- The children of a node in the order in which they were added. -/
def childrenOf (nodes : List JoinTreeNode) (parent : Nat) : List Nat :=
  siblingsFrom nodes nodes.length ((nodes[parent]?).bind (·.firstChild))

/-- A child behind the last one of its parent. -/
def addChild (nodes : List JoinTreeNode) (parent : Nat) (table : SourceId) (kind : JoinKind) : List JoinTreeNode :=
  let grown := nodes ++ [{ table, parent := some parent, kind }]
  match (childrenOf grown parent).getLast? with
  | some last => grown.modify last fun n => { n with nextSibling := some nodes.length }
  | none => grown.modify parent fun n => { n with firstChild := some nodes.length }

/-- The walk from a stack of nodes, the next one in front: a node is visited and its children take its place. -/
def walkFrom (nodes : List JoinTreeNode) : Nat → List Nat → List Nat
  | 0, _ => []
  | _ + 1, [] => []
  | steps + 1, i :: stack => i :: walkFrom nodes steps (childrenOf nodes i ++ stack)

/-- All nodes, a node before its children. There are no more steps than nodes. -/
def preorder (nodes : List JoinTreeNode) : List Nat := walkFrom nodes nodes.length [0]

/-- The tables in the order of the walk. -/
def tables (nodes : List JoinTreeNode) : List SourceId :=
  (preorder nodes).filterMap fun i => nodes[i]?.map (·.table)

/-- The first node of the walk that has a table. -/
def find? (nodes : List JoinTreeNode) (table : SourceId) : Option Nat :=
  (preorder nodes).find? fun i => (nodes[i]?.map (·.table)) == some table

/-- The accepted nodes below an accepted one, to a given depth, that have no accepted child. -/
def leavesFrom (nodes : List JoinTreeNode) (accepts : Nat → Bool) : Nat → Nat → List Nat
  | 0, _ => []
  | depth + 1, i =>
    match (childrenOf nodes i).filter accepts with
    | [] => [i]
    | children => children.flatMap (leavesFrom nodes accepts depth)

/-- The accepted nodes without accepted children. What lies below a node that is not accepted is left out. -/
def leafPlaces (nodes : List JoinTreeNode) (accepts : Nat → Bool) : List Nat :=
  if accepts 0 then leavesFrom nodes accepts nodes.length 0 else []

/-- The values of the leaves. What is told of a node decides whether it is accepted and what its value is. -/
def leavesOf {ν α : Type} (nodes : List JoinTreeNode) (told : List ν) (accept : ν → Bool) (value : ν → α) : List α :=
  (leafPlaces nodes fun i => (told[i]?).any accept).filterMap fun i => told[i]?.map value

/-- The values of the leaves where nothing but the nodes matters. -/
def leaves {α : Type} (nodes : List JoinTreeNode) (accept : JoinTreeNode → Bool) (value : JoinTreeNode → α) : List α :=
  leavesOf nodes nodes accept value

end ClusterPlan.JoinTree
