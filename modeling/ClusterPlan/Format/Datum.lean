/-!
# What values consist of

A value that is written to a text is taken apart into data under the names that the declaration of its type gives them
(`Datum`), and a value that is read is put together from them. `Shape` is how a type is declared, and `Shape.Has` says which data
the values of such a type consist of.
-/

namespace ClusterPlan

/-- The words that integers are kept in. -/
inductive Word where
  | int64
  | uint64
  | uint32
  | uint8
deriving DecidableEq

namespace Word

/-- The least integer of a word. -/
def least : Word → Int
  | int64 => -0x8000000000000000
  | uint64 | uint32 | uint8 => 0

/-- The greatest integer of a word. -/
def greatest : Word → Int
  | int64 => 0x7FFFFFFFFFFFFFFF
  | uint64 => 0xFFFFFFFFFFFFFFFF
  | uint32 => 0xFFFFFFFF
  | uint8 => 0xFF

/-- A word holds an integer. -/
def Holds (w : Word) (i : Int) : Prop := w.least ≤ i ∧ i ≤ w.greatest

instance (w : Word) (i : Int) : Decidable (w.Holds i) := inferInstanceAs (Decidable (_ ∧ _))

end Word

/-- How a type is declared. -/
inductive Shape where
  | bool
  | int (word : Word)
  | text
  /-- A value that may be missing. -/
  | optional (content : Shape)
  | list (item : Shape)
  /-- Unsigned words of 64 bits, each under a signed one. -/
  | table
  /-- Named fields in the order in which they are declared. -/
  | record (fields : List (String × Shape))
  /-- One of several alternatives: some are names only, others have a content. -/
  | choice (plain : List String) (filled : List (String × Shape))

/-- What a value consists of. -/
inductive Datum where
  | bool (b : Bool)
  | int (i : Int)
  | text (s : String)
  /-- A missing value. -/
  | absent
  /-- A value that could be missing. -/
  | present (content : Datum)
  | list (items : List Datum)
  /-- Each number under its key, the keys in ascending order. -/
  | table (entries : List (Int × Nat))
  | record (fields : List (String × Datum))
  /-- An alternative that is a name only. -/
  | plain (name : String)
  /-- An alternative with a content. -/
  | filled (name : String) (content : Datum)

/-! ## Tables -/

/-- The keys come in ascending order, each once. -/
def Datum.Ascending (entries : List (Int × Nat)) : Prop := entries.Pairwise fun e f => e.1 < f.1

/-- Puts a number under a key, instead of the one that is there. -/
def Datum.insertEntry (key : Int) (n : Nat) : List (Int × Nat) → List (Int × Nat)
  | [] => [(key, n)]
  | entry :: entries =>
    if key < entry.1 then (key, n) :: entry :: entries
    else if entry.1 < key then entry :: insertEntry key n entries
    else (key, n) :: entries

/-- The entries by their keys. Of several entries of a key the last one counts. -/
def Datum.ascending (entries : List (Int × Nat)) : List (Int × Nat) :=
  entries.foldl (fun sorted entry => insertEntry entry.1 entry.2 sorted) []

namespace Shape

/-! ## Data of a shape -/

mutual

/-- A value of a type that is declared so consists of the datum. -/
inductive Has : Shape → Datum → Prop where
  | bool (b : Bool) : Has bool (.bool b)
  | int {word : Word} {i : Int} : word.Holds i → Has (int word) (.int i)
  | text (s : String) : Has text (.text s)
  | absent (s : Shape) : Has (optional s) .absent
  | present {s : Shape} {d : Datum} : Has s d → Has (optional s) (.present d)
  | list {s : Shape} {ds : List Datum} : (∀ d ∈ ds, Has s d) → Has (list s) (.list ds)
  | table {entries : List (Int × Nat)} : Datum.Ascending entries →
      (∀ entry ∈ entries, Word.int64.Holds entry.1 ∧ Word.uint64.Holds entry.2) → Has table (.table entries)
  | record {fields : List (String × Shape)} {data : List (String × Datum)} : HasFields fields data →
      Has (record fields) (.record data)
  | plain {plain : List String} {filled : List (String × Shape)} {name : String} : name ∈ plain →
      Has (choice plain filled) (.plain name)
  | filled {plain : List String} {filled : List (String × Shape)} {name : String} {s : Shape} {d : Datum} :
      (name, s) ∈ filled → Has s d → Has (choice plain filled) (.filled name d)

/-- The fields of a record consist of the data. -/
inductive HasFields : List (String × Shape) → List (String × Datum) → Prop where
  | nil : HasFields [] []
  | cons {name : String} {s : Shape} {d : Datum} {fields : List (String × Shape)} {data : List (String × Datum)} :
      Has s d → HasFields fields data → HasFields ((name, s) :: fields) ((name, d) :: data)

end

/-! ## Proper declarations -/

def isOptional : Shape → Bool
  | optional _ => true
  | _ => false

mutual

/-- The fields of a record and the alternatives of a choice have different names, and what may be missing is not once more
something that may be missing. -/
def isProper : Shape → Bool
  | bool | int _ | text | table => true
  | optional s => !s.isOptional && s.isProper
  | list s => s.isProper
  | record fields => decide (fields.map (·.1)).Nodup && areProper fields
  | choice plain filled => decide (plain ++ filled.map (·.1)).Nodup && areProper filled

def areProper : List (String × Shape) → Bool
  | [] => true
  | (_, s) :: fields => s.isProper && areProper fields

end

mutual

/-- The number of levels of a shape. -/
def depth : Shape → Nat
  | bool | int _ | text => 0
  | optional s => s.depth
  | list s => s.depth + 1
  | table => 1
  | record fields => depthOf fields + 1
  | choice _ filled => depthOf filled + 1

def depthOf : List (String × Shape) → Nat
  | [] => 0
  | (_, s) :: fields => max s.depth (depthOf fields)

end

end Shape

/-! ## Declared types -/

/-- A type with its declaration. Its values are taken apart and put together. -/
class Declared (α : Type) where
  shape (α) : Shape
  datum : α → Datum
  ofDatum? : Datum → Option α

namespace Declared

instance : Declared Bool where
  shape := .bool
  datum := .bool
  ofDatum?
    | .bool b => some b
    | _ => none

instance : Declared String where
  shape := .text
  datum := .text
  ofDatum?
    | .text s => some s
    | _ => none

/-- Ids are kept in signed words of 64 bits. -/
instance : Declared Int where
  shape := .int .int64
  datum := .int
  ofDatum?
    | .int i => some i
    | _ => none

instance : Declared UInt8 where
  shape := .int .uint8
  datum n := .int n.toNat
  ofDatum?
    | .int i => some (.ofNat i.toNat)
    | _ => none

instance : Declared UInt32 where
  shape := .int .uint32
  datum n := .int n.toNat
  ofDatum?
    | .int i => some (.ofNat i.toNat)
    | _ => none

instance {α : Type} [Declared α] : Declared (Option α) where
  shape := .optional (shape α)
  datum
    | some a => .present (datum a)
    | none => .absent
  ofDatum?
    | .present d => (ofDatum? d).map some
    | .absent => some none
    | _ => none

instance {α : Type} [Declared α] : Declared (List α) where
  shape := .list (shape α)
  datum as := .list (as.map datum)
  ofDatum?
    | .list ds => ds.mapM ofDatum?
    | _ => none

end Declared

end ClusterPlan
