import ClusterPlan.Json

/-!
# Writing JSON

`Json.compact` writes a value without blanks, `Json.pretty` with one field or item on a line and two spaces for each level.
-/

namespace ClusterPlan.Json

/-- A text between quotes. -/
def quote (quoted : List Char) : List Char := '\x22' :: quoted ++ ['\x22']

mutual

/-- A value without blanks. -/
def compactChars : Json → List Char
  | null => "null".toList
  | bool true => "true".toList
  | bool false => "false".toList
  | number numeral => numeral
  | string quoted => quote quoted
  | array items => '[' :: compactItems items
  | object fields => '\x7b' :: compactFields fields

/-- The items of an array and its end. -/
def compactItems : List Json → List Char
  | [] => [']']
  | [item] => compactChars item ++ [']']
  | item :: items => compactChars item ++ ',' :: compactItems items

/-- The fields of an object and its end. -/
def compactFields : List (List Char × Json) → List Char
  | [] => ['\x7d']
  | [(name, value)] => quote name ++ ':' :: compactChars value ++ ['\x7d']
  | (name, value) :: fields => quote name ++ ':' :: compactChars value ++ ',' :: compactFields fields

end

def compact (j : Json) : String := String.ofList j.compactChars

/-- A new line at a level. -/
def newline (level : Nat) : List Char := '\n' :: List.replicate (2 * level) ' '

mutual

/-- A value that stands at a level. -/
def prettyChars (level : Nat) : Json → List Char
  | array [] => ['[', ']']
  | array items => '[' :: prettyItems level items
  | object [] => ['\x7b', '\x7d']
  | object fields => '\x7b' :: prettyFields level fields
  | null => "null".toList
  | bool true => "true".toList
  | bool false => "false".toList
  | number numeral => numeral
  | string quoted => quote quoted

/-- The items of an array that stands at a level, each on its own line, and the array's end. -/
def prettyItems (level : Nat) : List Json → List Char
  | [] => []
  | [item] => newline (level + 1) ++ prettyChars (level + 1) item ++ newline level ++ [']']
  | item :: items => newline (level + 1) ++ prettyChars (level + 1) item ++ ',' :: prettyItems level items

/-- The fields of an object that stands at a level, each on its own line, and the object's end. -/
def prettyFields (level : Nat) : List (List Char × Json) → List Char
  | [] => []
  | [(name, value)] =>
    newline (level + 1) ++ quote name ++ ':' :: ' ' :: prettyChars (level + 1) value ++ newline level ++ ['\x7d']
  | (name, value) :: fields =>
    newline (level + 1) ++ quote name ++ ':' :: ' ' :: prettyChars (level + 1) value ++ ',' :: prettyFields level fields

end

def pretty (j : Json) : String := String.ofList (prettyChars 0 j)

end ClusterPlan.Json
