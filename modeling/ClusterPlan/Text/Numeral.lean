import ClusterPlan.Binary64

/-!
# Reading numerals

Integers are an optional sign and at least one digit. Reals are an optional sign and either a word for infinity or NaN, or
digits around an optional point, at least one on either side, with an optional exponent.
-/

namespace ClusterPlan.Text

/-- The value of a string of decimal digits. -/
def digitsValue (ds : List Char) : Nat :=
  ds.foldl (fun n c => 10 * n + (c.toNat - '0'.toNat)) 0

/-- Splits off a leading sign: is it a minus, and what follows. -/
def splitSign : List Char → Bool × List Char
  | '-' :: rest => (true, rest)
  | '+' :: rest => (false, rest)
  | cs => (false, cs)

/-- Reads a whole text as an integer: an optional sign and at least one decimal digit. -/
def readInt? (cs : List Char) : Option Int :=
  let (negative, digits) := splitSign cs
  if digits ≠ [] ∧ digits.all Char.isDigit then
    some (if negative then -(digitsValue digits : Int) else digitsValue digits)
  else none

/-- Reads an integer that fits into 64 bits. -/
def readInt64? (cs : List Char) : Option Int64 :=
  match readInt? cs with
  | some i => if Int64.minValue.toInt ≤ i ∧ i ≤ Int64.maxValue.toInt then some (Int64.ofInt i) else none
  | none => none

/-- Reads the exponent that may end a real: nothing, or `e` and an integer. -/
def readExponent? : List Char → Option Int
  | [] => some 0
  | c :: rest => if c == 'e' || c == 'E' then readInt? rest else none

/-- Reads digits with an optional point and exponent; there is at least one digit before the exponent. -/
def readDecimal? (cs : List Char) : Option Decimal :=
  let whole := cs.takeWhile Char.isDigit
  let rest := cs.dropWhile Char.isDigit
  let (fraction, rest) := match rest with
    | '.' :: rest => (rest.takeWhile Char.isDigit, rest.dropWhile Char.isDigit)
    | rest => ([], rest)
  if whole = [] ∧ fraction = [] then none
  else (readExponent? rest).map fun e => ⟨digitsValue (whole ++ fraction), e - fraction.length⟩

/-- Reads a whole text as a real and rounds it to the nearest number. -/
def readReal? (cs : List Char) : Option Binary64 :=
  let (negative, rest) := splitSign cs
  match readDecimal? rest with
  | some d => some (Binary64.ofDecimal negative d)
  | none =>
    let word := String.ofList (rest.map Char.toLower)
    if word = "inf" ∨ word = "infinity" then some (Binary64.infinity negative)
    else if word = "nan" then some (Binary64.nan negative)
    else none

end ClusterPlan.Text
