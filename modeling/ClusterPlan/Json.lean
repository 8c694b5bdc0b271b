import ClusterPlan.Text.Quoted

/-!
# JSON values

A value keeps its numerals and its quoted texts as they are written; `Json.text?` and `Json.integer?` read them. An object
is the list of its fields in their order, repetitions included.
-/

namespace ClusterPlan

/-- A JSON value. -/
inductive Json where
  | null
  | bool (b : Bool)
  /-- A numeral as it is written. -/
  | number (numeral : List Char)
  /-- A text as it is written between its quotes. -/
  | string (quoted : List Char)
  | array (items : List Json)
  /-- The fields in their order; a name is as it is written between its quotes. -/
  | object (fields : List (List Char × Json))

namespace Json

instance : Inhabited Json := ⟨null⟩

/-! ## Building -/

/-- A text, escaped. -/
def text (s : String) : Json := string (Text.Quoted.encode s.toList)

def int (i : Int) : Json := number (toString i).toList

def nat (n : Nat) : Json := int n

/-- An object whose names need escaping. -/
def record (fields : List (String × Json)) : Json :=
  object (fields.map fun (name, value) => (Text.Quoted.encode name.toList, value))

/-- A missing value is null. -/
def option (f : α → Json) : Option α → Json
  | some a => f a
  | none => null

def list (f : α → Json) (xs : List α) : Json := array (xs.map f)

/-! ## Reading -/

def isNull : Json → Bool
  | null => true
  | _ => false

def bool? : Json → Option Bool
  | bool b => some b
  | _ => none

/-- The text that is written between two quotes. -/
def unquote? (quoted : List Char) : Option String := (Text.Quoted.decode quoted).map String.ofList

def text? : Json → Option String
  | string quoted => unquote? quoted
  | _ => none

def array? : Json → Option (List Json)
  | array items => some items
  | _ => none

/-- The value of the first field of a name. -/
def get? (name : String) : Json → Option Json
  | object fields => (fields.find? fun field => unquote? field.1 == some name).map (·.2)
  | _ => none

/-- The value of a name; null if there is none. -/
def field (j : Json) (name : String) : Json := (j.get? name).getD null

/-- The items of an array; none if the value is no array. -/
def toList (j : Json) : List Json := j.array?.getD []

/-- The items of the array of a name. -/
def items (j : Json) (name : String) : List Json := (j.field name).toList

/-- An item of an array; null past its end. -/
def item (j : Json) (i : Nat) : Json := (j.toList[i]?).getD null

/-- The truth value of a name, or the given one if there is none. -/
def flag (j : Json) (name : String) (fallback : Bool := false) : Bool := (j.field name).bool?.getD fallback

mutual

/-- The number of levels of a value. -/
def depth : Json → Nat
  | null | bool _ | number _ | string _ => 0
  | array items => depthOfItems items + 1
  | object fields => depthOfFields fields + 1

def depthOfItems : List Json → Nat
  | [] => 0
  | item :: items => max item.depth (depthOfItems items)

def depthOfFields : List (List Char × Json) → Nat
  | [] => 0
  | (_, value) :: fields => max value.depth (depthOfFields fields)

end

end Json

end ClusterPlan
