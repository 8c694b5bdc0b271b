import ClusterPlan.Format.Datum
import ClusterPlan.Format.Document

/-!
# Writing and reading values

The code that writes values of declared types as JSON texts and reads them back is given from outside: it is a `Serializer`.
What is known of it is its format (`Serializer.Documented`): which JSON value stands for which datum (`Datum.document`), and
which JSON values are read as data of a shape (`Shape.Reads`). The planner itself uses it through `Serializer.text` and
`Serializer.value?`.
-/

namespace ClusterPlan

/-! ## The format -/

namespace Datum

/-- An order in which the entries of a table are written. -/
abbrev EntryOrder := List (Int × Nat) → List (Int × Nat)

mutual

/-- The JSON value that is written for a datum. A missing value is null, records are objects with their fields in order, tables
are objects with decimal numerals as names, and an alternative is its name or an object with its name as the only one. -/
def document (order : EntryOrder) : Datum → Document
  | bool b => .bool b
  | int i => .int i
  | text s => .text s
  | absent => .null
  | present d => d.document order
  | list items => .array (documents order items)
  | table entries => .object ((order entries).map fun entry => (toString entry.1, .int entry.2))
  | record fields => .object (fieldDocuments order fields)
  | plain name => .text name
  | filled name content => .object [(name, content.document order)]

def documents (order : EntryOrder) : List Datum → List Document
  | [] => []
  | d :: ds => d.document order :: documents order ds

def fieldDocuments (order : EntryOrder) : List (String × Datum) → List (String × Document)
  | [] => []
  | (name, d) :: fields => (name, d.document order) :: fieldDocuments order fields

end

end Datum

namespace Shape

mutual

/-- A JSON value is read as a datum of a shape. The fields of a record are found by their names, in any order and among others,
and a missing field is a missing value. -/
inductive Reads : Shape → Document → Datum → Prop where
  | bool (b : Bool) : Reads bool (.bool b) (.bool b)
  | int {word : Word} {i : Int} : word.Holds i → Reads (int word) (.int i) (.int i)
  | text (s : String) : Reads text (.text s) (.text s)
  | absent (s : Shape) : Reads (optional s) .null .absent
  | present {s : Shape} {doc : Document} {d : Datum} : doc ≠ .null → Reads s doc d → Reads (optional s) doc (.present d)
  | list {s : Shape} {docs : List Document} {ds : List Datum} : ReadsItems s docs ds → Reads (list s) (.array docs) (.list ds)
  | table {listed entries : List (Int × Nat)} : Datum.Ascending entries → listed.Perm entries →
      (∀ entry ∈ listed, Word.int64.Holds entry.1 ∧ Word.uint64.Holds entry.2) →
      Reads table (.object (listed.map fun entry => (toString entry.1, .int entry.2))) (.table entries)
  | record {shapes : List (String × Shape)} {fields : List (String × Document)} {data : List (String × Datum)} :
      ReadsFields shapes fields data → Reads (record shapes) (.object fields) (.record data)
  | plain {plain : List String} {filled : List (String × Shape)} {name : String} : name ∈ plain →
      Reads (choice plain filled) (.text name) (.plain name)
  | filled {plain : List String} {filled : List (String × Shape)} {name : String} {s : Shape} {doc : Document} {d : Datum} :
      (name, s) ∈ filled → Reads s doc d → Reads (choice plain filled) (.object [(name, doc)]) (.filled name d)

/-- JSON values are read as data of one shape, one by one. -/
inductive ReadsItems : Shape → List Document → List Datum → Prop where
  | nil (s : Shape) : ReadsItems s [] []
  | cons {s : Shape} {doc : Document} {d : Datum} {docs : List Document} {ds : List Datum} : Reads s doc d →
      ReadsItems s docs ds → ReadsItems s (doc :: docs) (d :: ds)

/-- The fields of an object are read as the fields of a record. Each comes once, or not at all if its value may be missing. -/
inductive ReadsFields : List (String × Shape) → List (String × Document) → List (String × Datum) → Prop where
  | nil (fields : List (String × Document)) : ReadsFields [] fields []
  | found {name : String} {s : Shape} {doc : Document} {d : Datum} {shapes : List (String × Shape)}
      {fields : List (String × Document)} {data : List (String × Datum)} :
      (fields.filter fun field => field.1 == name) = [(name, doc)] → Reads s doc d → ReadsFields shapes fields data →
      ReadsFields ((name, s) :: shapes) fields ((name, d) :: data)
  | missing {name : String} {s : Shape} {shapes : List (String × Shape)} {fields : List (String × Document)}
      {data : List (String × Datum)} : (fields.filter fun field => field.1 == name) = [] → ReadsFields shapes fields data →
      ReadsFields ((name, optional s) :: shapes) fields ((name, .absent) :: data)

end

end Shape

/-! ## The code -/

/-- The code that writes data as texts and reads them back at the shape of a type. Writing can fail with a message. -/
structure Serializer where
  write : Datum → Except String String
  read : Shape → String → Option Datum

namespace Serializer

/-- Values are nested less deeply than this in a text that is read. -/
def depthLimit : Nat := 128

/-- The format that is documented. The entries of a table are written in some order. -/
structure Documented (s : Serializer) : Prop where
  /-- Data of a declared type are written, and the text stands for the JSON value of the format. -/
  writes : ∀ (shape : Shape) (d : Datum), shape.isProper → shape.Has d →
    ∃ (order : Datum.EntryOrder) (text : String), (∀ entries, (order entries).Perm entries) ∧ s.write d = .ok text ∧
      (d.document order).Spells text.toList
  /-- A text that stands for a JSON value is read as the datum that the format reads in it. -/
  reads : ∀ (shape : Shape) (doc : Document) (d : Datum) (text : String), shape.isProper → shape.Reads doc d →
    doc.depth < depthLimit → doc.Spells text.toList → s.read shape text = some d

variable {α : Type} [Declared α]

/-- The text of a value. -/
def text (s : Serializer) (a : α) : Except String String := s.write (Declared.datum a)

/-- The value of a declared type that a text stands for. -/
def value? (s : Serializer) (α : Type) [Declared α] (text : String) : Option α :=
  (s.read (Declared.shape α) text).bind Declared.ofDatum?

/-- A value has a text, and it is read back from it. -/
def ReadsBack (s : Serializer) (a : α) : Prop := ∃ text, s.text a = .ok text ∧ s.value? α text = some a

end Serializer

end ClusterPlan
