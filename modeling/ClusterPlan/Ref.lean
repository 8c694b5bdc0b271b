/-!
# References and arenas

The entities of a plan context live in arenas and are named by references, each kind of entity by references of its own
type. Plan nodes and conditions carry numbers instead, drawn from one `Supply`.
-/

namespace ClusterPlan

/-- The kinds of entities that a plan context holds. -/
inductive EntityKind where
  | tree
  | node
  | source
  | group
  | groupJoin
  | keyJoin
  | hashTable
  | bloomFilter
deriving DecidableEq

def EntityKind.label : EntityKind → String
  | tree => "TableTree"
  | node => "TableNode"
  | source => "TableSource"
  | group => "TableGroup"
  | groupJoin => "TableGroupJoin"
  | keyJoin => "TableFKJoin"
  | hashTable => "HashTable"
  | bloomFilter => "BloomFilter"

/-- A reference to an entity of one kind: its place in the arena. -/
structure Ref (kind : EntityKind) where
  index : Nat
deriving DecidableEq

def Ref.toText {kind : EntityKind} (r : Ref kind) : String := kind.label ++ "@" ++ toString r.index

abbrev TreeId := Ref .tree
abbrev NodeId := Ref .node
abbrev SourceId := Ref .source
abbrev GroupId := Ref .group
abbrev GroupJoinId := Ref .groupJoin
abbrev KeyJoinId := Ref .keyJoin
abbrev HashTableId := Ref .hashTable
abbrev BloomFilterId := Ref .bloomFilter

/-- The entities of one kind in the order in which they were added. None is ever removed. -/
structure Arena (kind : EntityKind) (α : Type) where
  items : Array α := #[]

namespace Arena

variable {kind : EntityKind} {α : Type}

def size (a : Arena kind α) : Nat := a.items.size

def get? (a : Arena kind α) (r : Ref kind) : Option α := a.items[r.index]?

/-- The entity of a reference; the default one for a reference that the arena did not give out. -/
def get [Inhabited α] (a : Arena kind α) (r : Ref kind) : α := (a.get? r).getD default

/-- Adds an entity and gives the reference to it. -/
def push (a : Arena kind α) (x : α) : Ref kind × Arena kind α := (⟨a.items.size⟩, ⟨a.items.push x⟩)

def modify (a : Arena kind α) (r : Ref kind) (f : α → α) : Arena kind α := ⟨a.items.modify r.index f⟩

def set (a : Arena kind α) (r : Ref kind) (x : α) : Arena kind α := a.modify r fun _ => x

end Arena

/-- The identity of a comparison. -/
structure ConditionId where
  value : Int
deriving DecidableEq

def ConditionId.toText (c : ConditionId) : String := "Condition@" ++ toString c.value

/-- The next unused number for a plan node or a condition. -/
structure Supply where
  next : Int := 1

/-- Draws the next number. -/
def Supply.draw (s : Supply) : Int × Supply := (s.next, ⟨s.next + 1⟩)

end ClusterPlan
