import ClusterPlan.Text.Numeral
import ClusterPlan.Text.Quoted
import ClusterPlan.Toml

/-!
# TOML texts, numbers, truth values and moments

Numbers may have underscores between their digits. Texts stand between one or three quotes; double quotes admit escapes, and
three quotes admit lines.
-/

namespace ClusterPlan.Toml

/-! ## Numbers -/

/-- Digits without the underscores between them. -/
def digits? (isDigit : Char → Bool) : List Char → Option (List Char)
  | [] => none
  | [c] => if isDigit c then some [c] else none
  | c :: '_' :: rest => if isDigit c then (digits? isDigit rest).map (c :: ·) else none
  | c :: rest => if isDigit c then (digits? isDigit rest).map (c :: ·) else none

/-- Decimal digits without a superfluous zero in front. -/
def whole? (cs : List Char) : Option (List Char) :=
  match cs with
  | '0' :: _ :: _ => none
  | cs => digits? Char.isDigit cs

/-- The value of digits to a base. -/
def based? (base : Nat) (cs : List Char) : Option Int :=
  let isDigit (c : Char) : Bool := (Text.Quoted.hexValue? c).any (· < base)
  let value (ds : List Char) : Nat := ds.foldl (fun n c => base * n + (Text.Quoted.hexValue? c).getD 0) 0
  (digits? isDigit cs).map fun ds => (value ds : Int)

/-- An integer, in one of four bases. -/
def integer? : List Char → Option Int
  | '0' :: 'x' :: rest => based? 16 rest
  | '0' :: 'o' :: rest => based? 8 rest
  | '0' :: 'b' :: rest => based? 2 rest
  | cs =>
    let (negative, rest) := Text.splitSign cs
    (whole? rest).map fun ds =>
      let size : Int := Text.digitsValue ds
      if negative then -size else size

/-- Is the text a number with a fraction or an exponent, or a word for infinity or NaN? -/
def isReal (cs : List Char) : Bool :=
  let rest := (Text.splitSign cs).2
  let isExponent (c : Char) : Bool := c == 'e' || c == 'E'
  let mantissa := rest.takeWhile fun c => !isExponent c
  let exponent := (rest.dropWhile fun c => !isExponent c).tail
  let fraction := (mantissa.dropWhile (· != '.')).tail
  let good (marked : Bool) (part : List Char) : Bool := !marked || (digits? Char.isDigit part).isSome
  rest == "inf".toList || rest == "nan".toList ||
    ((rest.any isExponent || mantissa.contains '.') && (whole? (mantissa.takeWhile (· != '.'))).isSome &&
      good (mantissa.contains '.') fraction && good (rest.any isExponent) (Text.splitSign exponent).2)

/-- Does a number with a fraction or an exponent round to infinity? The words for infinity do not count. -/
def overflows (cs : List Char) : Bool :=
  match Text.readDecimal? ((Text.splitSign cs).2.filter (· != '_')) with
  | some d => (Binary64.ofDecimal false d).isInfinite
  | none => false

/-- A value without quotes and brackets. -/
def plain? (cs : List Char) : Option Toml :=
  if cs = "true".toList then some (boolean true)
  else if cs = "false".toList then some (boolean false)
  else match integer? cs with
    | some i => some (integer i)
    | none => if isReal cs then some (real (overflows cs)) else (Moment.parse? cs).map moment

/-! ## Texts -/

/-- A control character that no text and no comment can hold as it is. -/
def isControl (c : Char) : Bool := (c.toNat < 0x20 && c != '\t') || c.toNat == 0x7F

/-- The character of a code point. -/
def ofCode? (n : Nat) : Option Char := if n.isValidChar then some (Char.ofNat n) else none

/-- The value of hexadecimal digits. -/
def hex? (cs : List Char) : Option Nat :=
  cs.foldlM (fun n c => (Text.Quoted.hexValue? c).map (16 * n + ·)) 0

/-- Reads the rest of an escape. -/
def escape? : List Char → Option (Char × List Char)
  | 'e' :: rest => some ('\x1b', rest)
  | 'x' :: a :: b :: rest => ((hex? [a, b]).bind ofCode?).map (·, rest)
  | 'u' :: a :: b :: c :: d :: rest => ((hex? [a, b, c, d]).bind ofCode?).map (·, rest)
  | 'U' :: a :: b :: c :: d :: e :: f :: g :: h :: rest =>
    ((hex? [a, b, c, d, e, f, g, h]).bind ofCode?).map (·, rest)
  | '/' :: _ => none
  | letter :: rest => (Text.Quoted.ofEscapeLetter? letter).map (·, rest)
  | [] => none

def isBlank (c : Char) : Bool := c == ' ' || c == '\t'

/-- Leaves out blanks and ends of lines. -/
def skipSpace : List Char → List Char
  | '\r' :: '\n' :: rest => skipSpace rest
  | c :: rest => if isBlank c || c == '\n' then skipSpace rest else c :: rest
  | [] => []

/-- Leaves out the end of a line and all blanks in front of the next text, if there is nothing else on the line. -/
def continuation? (cs : List Char) : Option (List Char) :=
  match cs.dropWhile isBlank with
  | '\n' :: rest | '\r' :: '\n' :: rest => some (skipSpace rest)
  | _ => none

/-- Reads a text up to its closing quote; each character takes one step of the fuel. -/
def shortText? (quote : Char) (escapes : Bool) : Nat → List Char → Option (List Char × List Char)
  | 0, _ | _, [] => none
  | fuel + 1, c :: rest =>
    if c = quote then some ([], rest)
    else if escapes && c == '\\' then do
      let (c, rest) ← escape? rest
      let (text, rest) ← shortText? quote escapes fuel rest
      return (c :: text, rest)
    else if isControl c then none
    else (shortText? quote escapes fuel rest).map fun (text, rest) => (c :: text, rest)

/-- Reads a text of several lines up to its three closing quotes, in front of which two more may stand. -/
def longText? (quote : Char) (escapes : Bool) : Nat → List Char → Option (List Char × List Char)
  | 0, _ | _, [] => none
  | fuel + 1, c :: rest =>
    let quotes := ((c :: rest).takeWhile (· == quote)).length
    if 3 ≤ quotes then
      let inside := min (quotes - 3) 2
      some (List.replicate inside quote, (c :: rest).drop (inside + 3))
    else if escapes && c == '\\' then
      match continuation? rest with
      | some rest => longText? quote escapes fuel rest
      | none => do
        let (c, rest) ← escape? rest
        let (text, rest) ← longText? quote escapes fuel rest
        return (c :: text, rest)
    else if isControl c && c != '\n' && !(c == '\r' && rest.head? == some '\n') then none
    else (longText? quote escapes fuel rest).map fun (text, rest) => (c :: text, rest)

/-- Reads a text that starts with a quote, on one line only or not. -/
def text? (lines : Bool) (cs : List Char) : Option (String × List Char) :=
  match cs with
  | q :: rest =>
    if q != '\x22' && q != '\x27' then none
    else
      let escapes := q == '\x22'
      let read :=
        match lines, rest with
        | true, a :: b :: rest =>
          if a == q && b == q then
            let rest := match rest with
              | '\n' :: rest | '\r' :: '\n' :: rest => rest
              | rest => rest
            longText? q escapes (cs.length + 1) rest
          else shortText? q escapes (cs.length + 1) (a :: b :: rest)
        | _, rest => shortText? q escapes (cs.length + 1) rest
      read.map fun (text, rest) => (String.ofList text, rest)
  | [] => none

end ClusterPlan.Toml
