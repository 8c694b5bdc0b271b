import ClusterPlan.Toml.Scalar

/-!
# Reading TOML

`Toml.parse?` reads a document: lines with a header or with a key and its value, comments and empty lines. Brackets and
braces stand inside each other at most `nestingLimit` deep, and a key has at most as many parts.
-/

namespace ClusterPlan.Toml

/-- The most brackets and braces that can be open at once, and the most parts of a key. -/
def nestingLimit : Nat := 80

def skipBlanks (cs : List Char) : List Char := cs.dropWhile isBlank

/-- Leaves out blanks and a comment. A comment holds no control characters. -/
def skipComment? (cs : List Char) : Option (List Char) :=
  match skipBlanks cs with
  | '#' :: rest =>
    let rest := rest.dropWhile fun c => !isControl c
    match rest with
    | [] | '\n' :: _ | '\r' :: '\n' :: _ => some rest
    | _ => none
  | rest => some rest

/-- Leaves out what ends a line. -/
def endLine? (cs : List Char) : Option (List Char) := do
  match ← skipComment? cs with
  | [] => some []
  | '\n' :: rest | '\r' :: '\n' :: rest => some rest
  | _ => none

/-- Leaves out blanks, comments and line ends; each line takes one step of the fuel. -/
def skipLines? : Nat → List Char → Option (List Char)
  | 0, cs => some cs
  | fuel + 1, cs => do
    match ← skipComment? cs with
    | '\n' :: rest | '\r' :: '\n' :: rest => skipLines? fuel rest
    | rest => some rest

def isBare (c : Char) : Bool := c.isAlphanum || c == '_' || c == '-'

/-- Reads a simple key, bare or between quotes. -/
def key? (cs : List Char) : Option (String × List Char) :=
  let bare := cs.takeWhile isBare
  if bare = [] then text? false cs else some (String.ofList bare, cs.dropWhile isBare)

/-- Reads a key with or without dots. Each part takes one step of the limit. -/
def keys? : Nat → List Char → Option (List String × List Char)
  | 0, _ => none
  | limit + 1, cs => do
    let (key, rest) ← key? (skipBlanks cs)
    match skipBlanks rest with
    | '.' :: rest =>
      let (keys, rest) ← keys? limit rest
      return (key :: keys, rest)
    | rest => return ([key], rest)

/-- The characters of a value without quotes and brackets. -/
def isPlain (c : Char) : Bool := isBare c || c == '+' || c == '.' || c == ':'

/-- The text of a value without quotes and brackets, and what follows. Between a date and a time there may be a space. -/
def plainText (cs : List Char) : List Char × List Char :=
  let word := cs.takeWhile isPlain
  match cs.dropWhile isPlain with
  | ' ' :: rest =>
    if (rest.head?).any Char.isDigit then (word ++ ' ' :: rest.takeWhile isPlain, rest.dropWhile isPlain)
    else (word, ' ' :: rest)
  | rest => (word, rest)

mutual

/-- Reads a value in which `room` more brackets and braces can be open at once. Each nested value takes one step of the
fuel. -/
def value? : Nat → Nat → List Char → Option (Toml × List Char)
  | 0, _, _ => none
  | fuel + 1, room, cs =>
    match cs, room with
    | '[' :: rest, room + 1 => (items? fuel room rest).map fun (items, rest) => (array items, rest)
    | '\x7b' :: rest, room + 1 => do
      match ← fields? fuel room empty rest with
      | (table _ fields, rest) => return (table { closed := true } fields, rest)
      | _ => none
    | '\x22' :: _, _ | '\x27' :: _, _ => (text? true cs).map fun (s, rest) => (string s, rest)
    | _, _ =>
      let (text, rest) := plainText cs
      (plain? text).map (·, rest)

/-- Reads the items of an array up to its end. The last item may have a comma behind it. -/
def items? : Nat → Nat → List Char → Option (List Toml × List Char)
  | 0, _, _ => none
  | fuel + 1, room, cs => do
    match ← skipLines? (cs.length + 1) cs with
    | ']' :: rest => return ([], rest)
    | rest =>
      let (item, rest) ← value? fuel room rest
      match ← skipLines? (rest.length + 1) rest with
      | ',' :: rest =>
        let (items, rest) ← items? fuel room rest
        return (item :: items, rest)
      | ']' :: rest => return ([item], rest)
      | _ => none

/-- Reads the fields of a table between braces into the table so far. Lines may end anywhere but in a key, and the last
field may have a comma behind it. -/
def fields? : Nat → Nat → Toml → List Char → Option (Toml × List Char)
  | 0, _, _, _ => none
  | fuel + 1, room, t, cs => do
    match ← skipLines? (cs.length + 1) cs with
    | '\x7d' :: rest => return (t, rest)
    | rest =>
      let (keys, rest) ← keys? nestingLimit rest
      match ← skipLines? (rest.length + 1) rest with
      | '=' :: rest =>
        let (value, rest) ← value? fuel room (← skipLines? (rest.length + 1) rest)
        let t ← putHere? keys value t
        match ← skipLines? (rest.length + 1) rest with
        | ',' :: rest => fields? fuel room t rest
        | '\x7d' :: rest => return (t, rest)
        | _ => none
      | _ => none

end

/-- Reads lines below a header. Each line takes one step of the fuel. -/
def lines? : Nat → List String → Toml → List Char → Option Toml
  | 0, _, _, _ => none
  | fuel + 1, header, t, cs => do
    match ← skipLines? (cs.length + 1) cs with
    | [] => return t
    | '[' :: '[' :: rest =>
      match ← keys? nestingLimit rest with
      | (keys, ']' :: ']' :: rest) => lines? fuel keys (← openItem? keys t) (← endLine? rest)
      | _ => none
    | '[' :: rest =>
      match ← keys? nestingLimit rest with
      | (keys, ']' :: rest) => lines? fuel keys (← openTable? keys t) (← endLine? rest)
      | _ => none
    | rest =>
      match ← keys? nestingLimit rest with
      | (keys, '=' :: rest) =>
        let rest := skipBlanks rest
        let (value, rest) ← value? (2 * rest.length + 2) nestingLimit rest
        lines? fuel header (← put? header keys value t) (← endLine? rest)
      | _ => none

/-- Reads a document. A byte order mark may stand in front of it. -/
def parse? (s : String) : Option Toml :=
  let cs := match s.toList with
    | '\ufeff' :: cs => cs
    | cs => cs
  lines? (cs.length + 1) [] empty cs

end ClusterPlan.Toml
