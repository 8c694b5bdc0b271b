import ClusterPlan.Json
import ClusterPlan.Text.Numeral

/-!
# JSON numerals

An integer is a numeral without point and exponent that fits into a word of 64 bits, signed or not; `-0` is no integer. A
real is read in two steps, each rounded: the leading digits, as many as fit into a word, are scaled by a power of ten.
-/

namespace ClusterPlan.Json

/-- Digits without a superfluous zero in front. -/
def isWhole : List Char → Bool
  | ['0'] => true
  | '0' :: _ => false
  | ds => ds ≠ [] && ds.all Char.isDigit

/-- The characters that can stand in a numeral. -/
def isNumeralChar (c : Char) : Bool := c.isDigit || c == '-' || c == '+' || c == '.' || c == 'e' || c == 'E'

/-- A numeral in its parts. -/
structure Numeral where
  negative : Bool
  whole : List Char
  fraction : List Char
  /-- The sign and the digits of an exponent. -/
  exponent : Option (Bool × List Char)

namespace Numeral

/-- The parts of a numeral: a sign, digits, a point with digits, and an exponent with digits. -/
def ofChars? (cs : List Char) : Option Numeral :=
  let (negative, cs) := match cs with
    | '-' :: rest => (true, rest)
    | cs => (false, cs)
  let whole := cs.takeWhile Char.isDigit
  let rest := cs.dropWhile Char.isDigit
  let (pointed, fraction, rest) := match rest with
    | '.' :: rest => (true, rest.takeWhile Char.isDigit, rest.dropWhile Char.isDigit)
    | rest => (false, [], rest)
  if !isWhole whole || (pointed && fraction.isEmpty) then none
  else match rest with
    | [] => some ⟨negative, whole, fraction, none⟩
    | c :: rest =>
      if c == 'e' || c == 'E' then
        let (down, digits) := Text.splitSign rest
        if digits ≠ [] ∧ digits.all Char.isDigit then some ⟨negative, whole, fraction, some (down, digits)⟩ else none
      else none

/-- The integer that a numeral names. -/
def integer? (n : Numeral) : Option Int :=
  let size := Text.digitsValue n.whole
  if n.fraction ≠ [] ∨ n.exponent.isSome then none
  else if n.negative then if 0 < size ∧ size ≤ UInt64.size / 2 then some (-(size : Int)) else none
  else if size < UInt64.size then some size else none

/-- Takes digits into a word as long as they fit; the number of digits taken comes along. -/
def fill : List Char → Nat × Nat → Nat × Nat
  | [], taken => taken
  | c :: cs, (word, count) =>
    let next := 10 * word + (c.toNat - '0'.toNat)
    if next < UInt64.size then fill cs (next, count + 1) else (word, count)

/-- A number scaled by a power of ten, each multiplication or division rounded. No scaling is left over in `fuel` steps of
308 places each. Overflow has no value. -/
def scaled? : Nat → Binary64 → Int → Option Binary64
  | 0, x, _ => some x
  | fuel + 1, x, exponent =>
    let power (n : Nat) : Binary64 := .ofNat (Nat.pow 10 n)
    if 308 < exponent.natAbs then
      if x.isZero then some x
      else if 0 ≤ exponent then none
      else scaled? fuel (x / power 308) (exponent + 308)
    else if 0 ≤ exponent then
      let y := x * power exponent.natAbs
      if y.isInfinite then none else some y
    else some (x / power exponent.natAbs)

def negated (x : Binary64) : Binary64 := ⟨x.bits ^^^ 0x8000000000000000⟩

/-- The real that a numeral names. A numeral too large for any finite number names none. -/
def real? (n : Numeral) : Option Binary64 :=
  match n.integer? with
  | some i => some (.ofInt i)
  | none =>
    let (word, taken) := fill n.whole (0, 0)
    let skipped := n.whole.length - taken
    let (word, places) := fill n.fraction (word, 0)
    let shift : Int := match n.exponent with
      | none => 0
      | some (down, digits) =>
        let size := Text.digitsValue digits
        if down then -(size : Int) else size
    let magnitude :=
      if 0x80000000 ≤ shift.natAbs then if word = 0 ∨ shift < 0 then some Binary64.zero else none
      else scaled? 20 (.ofNat word) (shift + skipped - places)
    magnitude.map fun x => if n.negative then negated x else x

end Numeral

/-- The integer of a numeral that is written without point and exponent. -/
def integer? : Json → Option Int
  | number numeral => (Numeral.ofChars? numeral).bind Numeral.integer?
  | _ => none

/-- A natural number below a bound. -/
def natBelow? (bound : Nat) (j : Json) : Option Nat :=
  match j.integer? with
  | some i => if 0 ≤ i ∧ i < bound then some i.toNat else none
  | none => none

def real? : Json → Option Binary64
  | number numeral => (Numeral.ofChars? numeral).bind Numeral.real?
  | _ => none

end ClusterPlan.Json
