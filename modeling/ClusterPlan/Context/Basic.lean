import ClusterPlan.Catalog.Group
import ClusterPlan.Config
import ClusterPlan.Expr.Head

/-!
# The plan context

All entities that one compilation refers to: the trees of tables with their nodes, the uses of tables (`TableSource`), the
groups that they form, the joins inside the groups and along foreign keys, hash tables and Bloom filters. Plans and
expressions hold references to them.
-/

namespace ClusterPlan

/-- The tables of one cluster as far as they are used. A parent stands before its children in `nodes`. -/
structure TableTree where
  group : Option Catalog.Group := none
  root : Option NodeId := none
  nodes : List NodeId := []
deriving Inhabited

/-- The place of a node in the list of its tree. -/
def TableTree.position? (t : TableTree) (n : NodeId) : Option Nat := t.nodes.findIdx? (· == n)

/-- A table in a tree. The children are in the order of their ordinals; `uses` lists the sources on the table. -/
structure TableNode where
  tree : TreeId
  table : Catalog.Table
  parent : Option NodeId := none
  children : List NodeId := []
  uses : List SourceId := []

instance : Inhabited TableNode := ⟨{ tree := ⟨0⟩, table := default }⟩

namespace TableNode

def name (n : TableNode) : String := n.table.name

/-- Notes a use, once. -/
def addUse (n : TableNode) (s : SourceId) : TableNode :=
  if s ∈ n.uses then n else { n with uses := n.uses ++ [s] }

end TableNode

/-- One use of a table in a query. A source that an outer join may leave without a row is not required. -/
structure TableSource where
  node : NodeId
  name : String
  required : Bool
  group : Option GroupId := none
  /-- The group join to the source of the parent table. -/
  parentJoin : Option GroupJoinId := none

instance : Inhabited TableSource := ⟨{ node := ⟨0⟩, name := "", required := false }⟩

/-- Sources that group joins connect. A group that was merged into another one is empty. -/
structure TableGroup where
  tables : List SourceId := []
  joins : List GroupJoinId := []
  mergedInto : Option GroupId := none
deriving Inhabited

/-- Adds a source, once. -/
def TableGroup.addTable (g : TableGroup) (s : SourceId) : TableGroup :=
  if s ∈ g.tables then g else { g with tables := g.tables ++ [s] }

/-- A join of a child table to its parent along the key that clusters them. -/
structure GroupJoin where
  group : GroupId
  parent : SourceId
  child : SourceId
  conditions : List ConditionId
  join : Catalog.Join
  rejected : Bool := false

instance : Inhabited GroupJoin := ⟨{ group := ⟨0⟩, parent := ⟨0⟩, child := ⟨0⟩, conditions := [], join := ⟨"", default, []⟩ }⟩

/-- A join along a foreign key. -/
structure KeyJoin where
  parent : SourceId
  child : SourceId
  conditions : List ConditionId
  foreignKey : Catalog.ForeignKey

instance : Inhabited KeyJoin := ⟨{ parent := ⟨0⟩, child := ⟨0⟩, conditions := [], foreignKey := default }⟩

structure HashTable where
  keyTypes : List (Option TypeInstance) := []
deriving Inhabited

structure BloomFilter where
  estimatedSize : UInt64
  selectivity : Binary64

instance : Inhabited BloomFilter := ⟨⟨0, .zero⟩⟩

/-- The entities of one compilation. -/
structure Context where
  config : PlannerConfig := {}
  trees : Arena .tree TableTree := {}
  nodes : Arena .node TableNode := {}
  sources : Arena .source TableSource := {}
  groups : Arena .group TableGroup := {}
  groupJoins : Arena .groupJoin GroupJoin := {}
  keyJoins : Arena .keyJoin KeyJoin := {}
  hashTables : Arena .hashTable HashTable := {}
  bloomFilters : Arena .bloomFilter BloomFilter := {}
  /-- The group join of a condition; the first entry of a condition counts. -/
  conditionJoins : List (ConditionId × GroupJoinId) := []

namespace Context

/-- An empty context with the given settings. -/
def withConfig (config : Config) : Context := { config := config.planner }

def property? (ctx : Context) (name : String) : Option String := ctx.config.properties.get? name

def propertyD (ctx : Context) (name fallback : String) : String := (ctx.property? name).getD fallback

def setProperty (ctx : Context) (name value : String) : Context :=
  { ctx with config := { ctx.config with properties := ctx.config.properties.insert name value } }

/-- The catalog table that a source uses. -/
def tableOf (ctx : Context) (s : SourceId) : Catalog.Table := (ctx.nodes.get (ctx.sources.get s).node).table

def sourceName (ctx : Context) (s : SourceId) : String := (ctx.sources.get s).name

def nodeName (ctx : Context) (n : NodeId) : String := (ctx.nodes.get n).name

/-- Is the table of `root` the table of `leaf` or one above it? -/
def isAncestor (ctx : Context) (leaf root : SourceId) : Bool := (ctx.tableOf root).isAncestorOf (ctx.tableOf leaf)

def addHashTable (ctx : Context) (t : HashTable) : HashTableId × Context :=
  let (id, hashTables) := ctx.hashTables.push t
  (id, { ctx with hashTables })

def addBloomFilter (ctx : Context) (f : BloomFilter) : BloomFilterId × Context :=
  let (id, bloomFilters) := ctx.bloomFilters.push f
  (id, { ctx with bloomFilters })

end Context

end ClusterPlan
