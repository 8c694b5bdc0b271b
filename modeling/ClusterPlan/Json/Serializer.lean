import ClusterPlan.Format.Serializer
import ClusterPlan.Json.Printer
import ClusterPlan.Json.Reader
import ClusterPlan.Json.Record

/-!
# The serializer of the workbench

The workbench answers in JSON, and with the same reader and printer it gives the planner a serializer (`Json.serializer`).
Reading is more generous than the format asks for: a record may be an array of its values, and an alternative without content
may have a null as one.
-/

namespace ClusterPlan

/-! ## Writing -/

mutual

def Document.toJson : Document → Json
  | null => .null
  | bool b => .bool b
  | int i => .int i
  | text s => .text s
  | array items => .array (itemsToJson items)
  | object fields => .object (fieldsToJson fields)

def Document.itemsToJson : List Document → List Json
  | [] => []
  | item :: items => item.toJson :: itemsToJson items

def Document.fieldsToJson : List (String × Document) → List (List Char × Json)
  | [] => []
  | (name, value) :: fields => (Text.Quoted.encode name.toList, value.toJson) :: fieldsToJson fields

end

/-- A datum with the entries of its tables in ascending order. -/
def Datum.toJson (d : Datum) : Json := (d.document id).toJson

/-! ## Reading -/

/-- An integer that a word holds. -/
def Word.read? (w : Word) (j : Json) : Option Int := j.integer?.filter fun i => decide (w.Holds i)

/-- Puts the number of a field under the integer that its name is. -/
def Datum.readEntry? (entries : List (Int × Nat)) (field : List Char × Json) : Option (List (Int × Nat)) := do
  let key ← Word.int64.read? (.number field.1)
  let n ← Word.uint64.read? field.2
  return insertEntry key n.toNat entries

/-- Numbers under integers; the last one of an integer counts. -/
def Datum.readTable? (fields : List (List Char × Json)) : Option (List (Int × Nat)) := fields.foldlM readEntry? []

namespace Shape

mutual

/-- The datum of a shape that a JSON value is read as. -/
def read? : Shape → Json → Option Datum
  | bool, j => j.bool?.map .bool
  | int word, j => (word.read? j).map .int
  | text, j => j.text?.map .text
  | optional s, j => if j.isNull then some .absent else (s.read? j).map .present
  | list s, j => (j.array?.bind (List.mapM s.read?)).map .list
  | table, .object fields => (Datum.readTable? fields).map .table
  | table, _ => none
  | record shapes, j => ((j.fields? (shapes.map (·.1))).bind (readFields? shapes)).map .record
  | choice plain filled, j =>
    match j.alternative? with
    | some (name, none) => if name ∈ plain then some (.plain name) else none
    | some (name, some content) =>
      if name ∈ plain then if content.isNull then some (.plain name) else none else readFilled? filled name content
    | none => none

/-- The fields of a record from what it holds in their places. -/
def readFields? : List (String × Shape) → List JsonField → Option (List (String × Datum))
  | [], _ => some []
  | (name, s) :: shapes, field :: fields =>
    match field, s.isOptional with
    | .missing, true => (readFields? shapes fields).map ((name, .absent) :: ·)
    | .missing, false => none
    | .value j, _ => (s.read? j).bind fun d => (readFields? shapes fields).map ((name, d) :: ·)
  | _ :: _, [] => none

/-- The alternative with a name and a content. -/
def readFilled? : List (String × Shape) → String → Json → Option Datum
  | [], _, _ => none
  | (other, s) :: filled, name, j => if other = name then (s.read? j).map (.filled name) else readFilled? filled name j

end

end Shape

namespace Json

/-- Writes with a line for each field and item. -/
def serializer : Serializer where
  write d := .ok d.toJson.pretty
  read shape text := (parse? text).bind shape.read?

/-- A value of a declared type. -/
def ofValue {α : Type} [Declared α] (a : α) : Json := (Declared.datum a).toJson

/-- The value of a declared type. -/
def toValue? (α : Type) [Declared α] (j : Json) : Option α := ((Declared.shape α).read? j).bind Declared.ofDatum?

end Json

end ClusterPlan
