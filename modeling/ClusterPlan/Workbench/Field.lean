import ClusterPlan.Json.Number
import ClusterPlan.Snapshot.Value
import ClusterPlan.Workbench

/-!
# Reading the parts of a description

Descriptions of things to build are JSON records. A field that is missing is like one that is null, and lists may be left
out.
-/

namespace ClusterPlan

namespace Json

/-- The number of a word of sixteen hexadecimal digits. -/
def double? (j : Json) : Option Binary64 := do
  let word ← (← j.text?).toList.foldlM (fun n c => (Text.Quoted.hexValue? c).map (16 * n + ·)) 0
  return ⟨.ofNat word⟩

def value? (j : Json) : Option Value :=
  match j with
  | string _ => some .null
  | bool b => some (.bool b)
  | number _ => j.integer?.map fun i => .int (.ofInt i)
  | j =>
    match j.get? "d" with
    | some d => d.double?.map .double
    | none => (j.field "s").text?.map .string

/-- The data types without content, by name. -/
def plainTypes : List (String × DataType) :=
  [("null", .null), ("boolean", .boolean), ("int", .int), ("bigint", .bigInt), ("double", .double), ("date", .date),
    ("timestamp", .timestamp)]

def dataType? (j : Json) : Option DataType :=
  match j with
  | string _ => j.text?.bind fun name => plainTypes.lookup name
  | j =>
    match j.get? "decimal" with
    | some d => do return .decimal (.ofNat (← (d.item 0).natBelow? UInt8.size)) (.ofNat (← (d.item 1).natBelow? UInt8.size))
    | none => do return .varchar (.ofNat (← (j.field "varchar").natBelow? UInt32.size))

def type? (j : Json) : Option TypeInstance := do return ⟨← (j.item 0).dataType?, ← (j.item 1).bool?⟩

/-- A value that may be null. -/
def maybe? {α : Type} (read : Json → Option α) (j : Json) : Option (Option α) :=
  if j.isNull then some none else (read j).map some

def nat? (j : Json) : Option Nat := j.natBelow? UInt64.size

def word? (j : Json) : Option UInt64 := j.nat?.map .ofNat

def cost? (j : Json) : Option Cost := do return ⟨← (j.item 0).word?, ← (j.item 1).double?⟩

def ref? {kind : EntityKind} (j : Json) : Option (Ref kind) := j.nat?.map Ref.mk

def pair? (j : Json) : Option (String × String) := do return (← (j.item 0).text?, ← (j.item 1).text?)

def resultField? (j : Json) : Option ResultField := do return ⟨← (j.item 0).text?, ← maybe? type? (j.item 1)⟩

def overload? (j : Json) : Option Overload := do return ⟨← (j.item 0).text?, ← (j.item 1).type?⟩

/-- An alternative by its name. -/
def named? {α : Type} (names : List (String × α)) (j : Json) : Option α := j.text?.bind fun name => names.lookup name

end Json

namespace Building

/-- What a field holds. -/
def read {α : Type} (read : Json → Option α) (j : Json) (name : String) : Building α := need (read (j.field name))

/-- What a field holds that may be missing. -/
def read? {α : Type} (read : Json → Option α) (j : Json) (name : String) : Building (Option α) :=
  need ((j.field name).maybe? read)

/-- What the items of a field hold. -/
def reads {α : Type} (read : Json → Option α) (j : Json) (name : String) : Building (List α) :=
  need ((j.items name).mapM read)

def str (j : Json) (name : String) : Building String := read Json.text? j name

def num (j : Json) (name : String) : Building Nat := read Json.nat? j name

def refOf {kind : EntityKind} (j : Json) (name : String) : Building (Ref kind) := read Json.ref? j name

def refOf? {kind : EntityKind} (j : Json) (name : String) : Building (Option (Ref kind)) := read? Json.ref? j name

def refsOf {kind : EntityKind} (j : Json) (name : String) : Building (List (Ref kind)) := reads Json.ref? j name

def typeOf? (j : Json) (name : String) : Building (Option TypeInstance) := read? Json.type? j name

/-- A node, by its id or by a name. -/
def idOf (j : Json) : Building Int := do
  match j.integer? with
  | some i => pure i
  | none => need ((← get).ids.lookup (← need j.text?))

/-- A condition, by its number or by a name. -/
def conditionOf (j : Json) : Building ConditionId := do
  match j.integer? with
  | some i => pure ⟨i⟩
  | none => need ((← get).conditions.lookup (← need j.text?))

def tableOf (j : Json) : Building Catalog.Table := do need ((← get).tables.lookup (← need j.text?))

/-- Builds what a field describes. -/
def build? {α : Type} (build : Json → Building α) (j : Json) (name : String) : Building (Option α) :=
  if (j.field name).isNull then pure none else some <$> build (j.field name)

/-- Builds what the items of a field describe, one after the other. -/
def builds {α : Type} (build : Json → Building α) (j : Json) (name : String) : Building (List α) :=
  (j.items name).mapM build

end Building

end ClusterPlan
