import ClusterPlan.Toml.Reader

/-!
# Writing TOML keys and texts

A text stands between the plainest quotes that it fits into without escapes: one double quote, one single quote, three
double quotes, three single quotes. A text that needs escapes stands between double quotes, three if it has lines.
-/

namespace ClusterPlan.Toml

/-- The most characters of a kind that stand side by side in a text. -/
def longestRun (c : Char) (cs : List Char) : Nat :=
  (cs.foldl (fun (longest, current) d =>
    let current := if d = c then current + 1 else 0
    (max longest current, current)) (0, 0)).1

/-- A character that has to be escaped wherever it stands. -/
def needsEscape (c : Char) : Bool := isControl c && c != '\n'

/-- The escape of a character. -/
def escape (c : Char) : List Char :=
  let hex (n : Nat) : Char := (Text.Quoted.hexDigit (n % 16)).toUpper
  match Text.Quoted.escapeLetter? c with
  | some letter => ['\\', letter]
  | none => ['\\', 'u', '0', '0', hex (c.toNat / 16), hex c.toNat]

/-- Escapes a text for double quotes, three of them if it may have lines. `quotes` is the number of quotes just before. -/
def escapeText (lines : Bool) (quotes : Nat) : List Char → List Char
  | [] => []
  | c :: cs =>
    if c = '\x22' then
      if lines && quotes < 2 then c :: escapeText lines (quotes + 1) cs else '\\' :: c :: escapeText lines 0 cs
    else if c = '\n' && lines then c :: escapeText lines 0 cs
    else if c = '\n' || c = '\t' || c = '\\' || needsEscape c then escape c ++ escapeText lines 0 cs
    else c :: escapeText lines 0 cs

/-- A text between quotes. A text with lines starts on a line of its own. -/
def quoteText (s : String) : String :=
  let cs := s.toList
  let single := longestRun '\x27' cs
  let double := longestRun '\x22' cs
  let escapes := cs.any needsEscape
  let newline := cs.contains '\n'
  let backslash := cs.contains '\\'
  let start := if newline then "\n" else ""
  let basic := "\"" ++ String.ofList (escapeText false 0 cs) ++ "\""
  let long := "\"\"\"" ++ start ++ String.ofList (escapeText true 0 cs) ++ "\"\"\""
  if !escapes && !backslash && double = 0 && !newline then basic
  else if !escapes && single = 0 && !newline then "'" ++ s ++ "'"
  else if !escapes && !backslash && double ≤ 2 then long
  else if !escapes && single ≤ 2 then "'''" ++ start ++ s ++ "'''"
  else if newline then long
  else basic

/-- A key, without quotes if it can stand without. -/
def quoteKey (s : String) : String :=
  let cs := s.toList
  let escapes := cs.any isControl
  let basic := "\"" ++ String.ofList (escapeText false 0 cs) ++ "\""
  if cs ≠ [] ∧ cs.all isBare then s
  else if !escapes && !cs.contains '\\' && !cs.contains '\x22' then basic
  else if !escapes && !cs.contains '\x27' then "'" ++ s ++ "'"
  else basic

end ClusterPlan.Toml
