import ClusterPlan.Catalog.Index
import ClusterPlan.Cost
import ClusterPlan.Expr.Head
import ClusterPlan.Json
import ClusterPlan.Plan.Operator
import ClusterPlan.Scan.Consumption

/-!
# Snapshots of values

A snapshot is a JSON value that shows everything that a thing holds. Floating-point numbers are shown by their words, since
their decimal texts may round.
-/

namespace ClusterPlan

/-- The word in sixteen hexadecimal digits. All NaNs are shown alike. -/
def Binary64.snapshot (x : Binary64) : Json :=
  let digit (i : Nat) : Char := Text.Quoted.hexDigit (x.bits.toNat / Nat.pow 16 (15 - i) % 16)
  .text (if x.isNaN then "nan" else String.ofList ((List.range 16).map digit))

def Value.snapshot : Value → Json
  | null => .text "null"
  | bool b => .bool b
  | int i => .int i.toInt
  | double d => .record [("d", d.snapshot)]
  | string s => .record [("s", .text s)]

def Cost.snapshot (c : Cost) : Json :=
  .record [("rows", .nat c.rows.toNat), ("cost", c.amount.snapshot), ("text", .text c.toText)]

def Ref.snapshot {kind : EntityKind} (r : Ref kind) : Json := .nat r.index

def ConditionId.snapshot (c : ConditionId) : Json := .int c.value

/-- Some texts. -/
def snapshotTexts (texts : List String) : Json := .list .text texts

def TypeInstance.snapshot (t : TypeInstance) : Json := .text t.toText

def Overload.snapshot (o : Overload) : Json := snapshotTexts [o.name, o.result.toText]

def ResultField.snapshot (f : ResultField) : Json := .array [.text f.name, .option TypeInstance.snapshot f.type]

/-! ## Names of alternatives -/

def JoinKind.names : List (String × JoinKind) := JoinKind.all.map fun k => (k.toText, k)

def JoinMethod.names : List (String × JoinMethod) :=
  [nestedLoops, hashTable, bloomFilter, merge].map fun m => (m.toText, m)

def AggregateMethod.names : List (String × AggregateMethod) := AggregateMethod.all.map fun m => (m.toText, m)

def Comparison.names : List (String × Comparison) := Comparison.all.map fun c => (c.symbol, c)

def SpecialFunction.names : List (String × SpecialFunction) :=
  [fullTextMatch, geoContains, geoOverlaps].map fun f => (f.name, f)

def LogicalOp.names : List (String × LogicalOp) := [and, or, not, isNull].map fun op => (op.name, op)

def Implementation.names : List (String × Implementation) :=
  [("Normal", normal), ("GroupJoin", groupJoin), ("PotentialGroupJoin", potentialGroupJoin)]

def SubqueryKind.names : List (String × SubqueryKind) := [("Value", value), ("Exists", exist), ("Any", any)]

def DistinctMethod.names : List (String × DistinctMethod) :=
  [("Presorted", presorted), ("ExplicitSort", explicitSort)]

def ModifyKind.names : List (String × ModifyKind) := [("Insert", insert), ("Update", update), ("Delete", delete)]

def Catalog.IndexKind.names : List (String × Catalog.IndexKind) :=
  [("Table", table), ("Group", group), ("FullText", fullText), ("Spatial", spatial)]

def HowMany.names : List (String × HowMany) := [("None", none), ("One", one), ("Many", many)]

/-- The name of an alternative. -/
def nameIn {α : Type} [BEq α] (names : List (String × α)) (x : α) : String :=
  ((names.find? fun entry => entry.2 == x).map (·.1)).getD ""

end ClusterPlan
