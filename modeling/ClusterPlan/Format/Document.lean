import ClusterPlan.Text.Quoted

/-!
# JSON texts

`Document` is the values that a JSON text can stand for, with integers as the only numbers. `Document.Spells` is the grammar of
the texts: blanks may stand between the parts of a value, and only control characters are escaped by their numbers.
-/

namespace ClusterPlan

/-- A JSON value without fractions. The fields of an object come in their order, repetitions included. -/
inductive Document where
  | null
  | bool (b : Bool)
  | int (i : Int)
  | text (s : String)
  | array (items : List Document)
  | object (fields : List (String × Document))

namespace Document

mutual

/-- The number of levels of a value. -/
def depth : Document → Nat
  | null | bool _ | int _ | text _ => 0
  | array items => depthOfItems items + 1
  | object fields => depthOfFields fields + 1

def depthOfItems : List Document → Nat
  | [] => 0
  | item :: items => max item.depth (depthOfItems items)

def depthOfFields : List (String × Document) → Nat
  | [] => 0
  | (_, value) :: fields => max value.depth (depthOfFields fields)

end

/-- Nothing but blanks. -/
def Blank (cs : List Char) : Prop := ∀ c ∈ cs, c = ' ' ∨ c = '\n' ∨ c = '\t' ∨ c = '\r'

/-- What stands between the quotes of a text. A character stands for itself; quotes, backslashes and control characters have to
be escaped with a letter or, if they are control characters, with their number in four hexadecimal digits. -/
inductive Quotes : List Char → List Char → Prop where
  | nil : Quotes [] []
  | itself {c : Char} {cs quoted : List Char} : c ≠ '\x22' → c ≠ '\\' → ¬c.toNat < 0x20 → Quotes cs quoted →
      Quotes (c :: cs) (c :: quoted)
  | letter {c letter : Char} {cs quoted : List Char} : Text.Quoted.ofEscapeLetter? letter = some c → Quotes cs quoted →
      Quotes (c :: cs) ('\\' :: letter :: quoted)
  | number {c p q r s : Char} {cs quoted : List Char} : c.toNat < 0x20 → Text.Quoted.unit? p q r s = some c.toNat →
      Quotes cs quoted → Quotes (c :: cs) ('\\' :: 'u' :: p :: q :: r :: s :: quoted)

/-- A text in its quotes. -/
inductive SpellsText (s : String) : List Char → Prop where
  | quote {quoted : List Char} : Quotes s.toList quoted → SpellsText s ('\x22' :: (quoted ++ ['\x22']))

mutual

/-- A text stands for a value. No blanks stand around it. -/
inductive Spells : Document → List Char → Prop where
  | null : Spells null "null".toList
  | boolTrue : Spells (bool true) "true".toList
  | boolFalse : Spells (bool false) "false".toList
  | int (i : Int) : Spells (int i) (toString i).toList
  | text {s : String} {cs : List Char} : SpellsText s cs → Spells (text s) cs
  | noItems {blanks : List Char} : Blank blanks → Spells (array []) ('[' :: (blanks ++ [']']))
  | array {items : List Document} {cs : List Char} : SpellsItems items cs → Spells (array items) ('[' :: cs)
  | noFields {blanks : List Char} : Blank blanks → Spells (object []) ('\x7b' :: (blanks ++ ['\x7d']))
  | object {fields : List (String × Document)} {cs : List Char} : SpellsFields fields cs → Spells (object fields) ('\x7b' :: cs)

/-- A text stands for the items of an array and its end. -/
inductive SpellsItems : List Document → List Char → Prop where
  | last {item : Document} {before text after : List Char} : Blank before → Spells item text → Blank after →
      SpellsItems [item] (before ++ (text ++ (after ++ [']'])))
  | cons {item : Document} {items : List Document} {before text after cs : List Char} : Blank before → Spells item text →
      Blank after → SpellsItems items cs → SpellsItems (item :: items) (before ++ (text ++ (after ++ ',' :: cs)))

/-- A text stands for the fields of an object and its end. -/
inductive SpellsFields : List (String × Document) → List Char → Prop where
  | last {name : String} {value : Document} {before quoted between behind text after : List Char} : Blank before →
      SpellsText name quoted → Blank between → Blank behind → Spells value text → Blank after →
      SpellsFields [(name, value)] (before ++ (quoted ++ (between ++ ':' :: (behind ++ (text ++ (after ++ ['\x7d']))))))
  | cons {name : String} {value : Document} {fields : List (String × Document)}
      {before quoted between behind text after cs : List Char} : Blank before → SpellsText name quoted → Blank between →
      Blank behind → Spells value text → Blank after → SpellsFields fields cs →
      SpellsFields ((name, value) :: fields)
        (before ++ (quoted ++ (between ++ ':' :: (behind ++ (text ++ (after ++ ',' :: cs))))))

end

end Document

end ClusterPlan
