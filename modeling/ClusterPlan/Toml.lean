import ClusterPlan.Toml.Moment

/-!
# TOML tables

A document is a table that its headers and keys build up step by step. `Toml.openTable?` and `Toml.openItem?` follow a
header, `Toml.put?` enters a value below the table of a header; each of them refuses what would define something twice.
-/

namespace ClusterPlan

/-- How a table came to be. -/
structure TableForm where
  /-- So far the table is only part of a path. -/
  implicit : Bool := false
  /-- A key with dots made the table. -/
  dotted : Bool := false
  /-- The table stands between braces, and nothing can be added to it. -/
  closed : Bool := false
deriving DecidableEq

/-- A TOML value. Of a number with a fraction or an exponent only its size matters. -/
inductive Toml where
  | string (s : String)
  | integer (i : Int)
  | boolean (b : Bool)
  /-- A number with a fraction or an exponent, or a word for infinity or NaN: is it too large for a double? -/
  | real (overflows : Bool)
  | moment (m : Moment)
  | array (items : List Toml)
  /-- The tables that headers with two brackets opened, the last one in front. -/
  | tables (items : List Toml)
  | table (form : TableForm) (fields : List (String × Toml))

namespace Toml

/-- The number of words of 128 bits. -/
def wideSize : Int := 0x100000000000000000000000000000000

mutual

/-- Do all numbers in a value have their place? An integer has one if it fits into a word of 128 bits, signed or not. -/
def isReadable : Toml → Bool
  | integer i => decide (-wideSize ≤ 2 * i ∧ i < wideSize)
  | real overflows => !overflows
  | array items | tables items => allReadable items
  | table _ fields => fieldsReadable fields
  | string _ | boolean _ | moment _ => true

def allReadable : List Toml → Bool
  | [] => true
  | item :: items => item.isReadable && allReadable items

def fieldsReadable : List (String × Toml) → Bool
  | [] => true
  | (_, value) :: fields => value.isReadable && fieldsReadable fields

end

/-- The table that a document starts with. -/
def empty : Toml := table {} []

/-- Puts a value in the place of the one that a key has. -/
def replace (key : String) (value : Toml) : List (String × Toml) → List (String × Toml)
  | [] => []
  | field :: fields => if field.1 = key then (key, value) :: fields else field :: replace key value fields

/-- Changes the table at the end of a path. Missing tables on the way are made, part of a key with dots or not. A list of
tables leads to its last one. Otherwise the path leads through no table between braces, and that of a key with dots through
no table that a header opened. -/
def editPath? (dotted : Bool) (f : Toml → Option Toml) : List String → Toml → Option Toml
  | [], t => f t
  | key :: path, table form fields =>
    match fields.lookup key with
    | none =>
      (editPath? dotted f path (table { implicit := true, dotted } [])).map fun child =>
        table form (fields ++ [(key, child)])
    | some (tables (last :: items)) =>
      (editPath? dotted f path last).map fun last => table form (replace key (tables (last :: items)) fields)
    | some (table child inner) =>
      if child.closed || (dotted && !child.implicit) then none
      else (editPath? dotted f path (table child inner)).map fun child => table form (replace key child fields)
    | some _ => none
  | _, _ => none

/-- Enters a value that is not yet there. A key with dots enters it only into a table that keys with dots made. -/
def enter? (dotted : Bool) (key : String) (value : Toml) : Toml → Option Toml
  | table form fields =>
    if form.dotted = dotted ∧ fields.lookup key = none then some (table form (fields ++ [(key, value)])) else none
  | _ => none

/-- Enters a value below a table. The last key names the value and the others lead to it. -/
def putHere? (keys : List String) (value : Toml) (t : Toml) : Option Toml :=
  match keys.getLast? with
  | some key => editPath? true (enter? (decide (1 < keys.length)) key value) keys.dropLast t
  | none => none

/-- Enters a value below the table of a header. -/
def put? (header keys : List String) (value : Toml) (t : Toml) : Option Toml :=
  editPath? false (putHere? keys value) header t

/-- Opens the table of a header: it is new, or so far only part of paths. -/
def openTable? (header : List String) (t : Toml) : Option Toml :=
  let openHere (key : String) : Toml → Option Toml
    | table form fields =>
      match fields.lookup key with
      | none => some (table form (fields ++ [(key, empty)]))
      | some (table child inner) =>
        if child.implicit && !child.dotted then some (table form (replace key (table {} inner) fields)) else none
      | some _ => none
    | _ => none
  match header.getLast? with
  | some key => editPath? false (openHere key) header.dropLast t
  | none => none

/-- Opens one more table in the list of a header. -/
def openItem? (header : List String) (t : Toml) : Option Toml :=
  let openHere (key : String) : Toml → Option Toml
    | table form fields =>
      match fields.lookup key with
      | none => some (table form (fields ++ [(key, tables [empty])]))
      | some (tables items) => some (table form (replace key (tables (empty :: items)) fields))
      | some _ => none
    | _ => none
  match header.getLast? with
  | some key => editPath? false (openHere key) header.dropLast t
  | none => none

end Toml

end ClusterPlan
