import ClusterPlan.Decimal.Rounding

/-!
# Binary floating-point numbers

A `Binary64` is a word of 64 bits, and two numbers are equal when their words are: a zero differs from the negative zero,
and a NaN equals itself. Rounding to the nearest number (`ofRatio`), the fewest digits that read back (`shortest`) and
rounding to hundredths are exact computations on natural numbers.
-/

namespace ClusterPlan

/-- A binary floating-point number of 64 bits: a sign bit, 11 exponent bits and 52 fraction bits. -/
structure Binary64 where
  bits : UInt64
deriving DecidableEq

namespace Binary64

/-- The word of the sign bit. -/
def signWord : Nat := 0x8000000000000000

/-- The number of words between two powers of two: 2 to the 52. -/
def binade : Nat := 0x10000000000000

/-- The word of positive infinity; larger magnitudes are the NaNs. -/
def infinityWord : Nat := 0x7FF0000000000000

/-- The magnitude with the given word, negated if asked. -/
def ofMagnitude (negative : Bool) (word : Nat) : Binary64 :=
  ⟨UInt64.ofNat (if negative then signWord + word else word)⟩

def zero : Binary64 := ⟨0⟩

def infinity (negative : Bool) : Binary64 := ofMagnitude negative infinityWord

def nan (negative : Bool) : Binary64 := ofMagnitude negative (infinityWord + binade / 2)

def isNegative (x : Binary64) : Bool := signWord ≤ x.bits.toNat

/-- The word without its sign bit. -/
def magnitude (x : Binary64) : Nat := x.bits.toNat % signWord

def isNaN (x : Binary64) : Bool := infinityWord < x.magnitude

def isInfinite (x : Binary64) : Bool := x.magnitude == infinityWord

def isZero (x : Binary64) : Bool := x.magnitude == 0

/-- The integer `m` of a finite number's magnitude `m * 2 ^ scale`. -/
def significand (x : Binary64) : Nat :=
  if x.magnitude < binade then x.magnitude else x.magnitude % binade + binade

/-- The power of two of a finite number's magnitude `significand * 2 ^ scale`. -/
def scale (x : Binary64) : Int := (max (x.magnitude / binade) 1 : Nat) - 1075

/-- A finite number's magnitude as a quotient of natural numbers. -/
def ratio (x : Binary64) : Nat × Nat :=
  if 0 ≤ x.scale then (x.significand * Nat.pow 2 x.scale.toNat, 1) else (x.significand, Nat.pow 2 (-x.scale).toNat)

/-- The number nearest to `num / den`, a tie going to the even significand; too large a quotient gives infinity. -/
def ofRatio (negative : Bool) (num den : Nat) : Binary64 :=
  if num = 0 then ofMagnitude negative 0
  else
    let guess : Int := max ((num.log2 : Int) - den.log2 - 53) (-1074)
    let scaled (power : Int) : Nat × Nat :=
      if 0 ≤ power then (num, den * Nat.pow 2 power.toNat) else (num * Nat.pow 2 (-power).toNat, den)
    let power := if 2 * binade ≤ (scaled guess).1 / (scaled guess).2 then guess + 1 else guess
    let word := (power + 1074).toNat * binade + roundQuotient (scaled power).1 (scaled power).2
    ofMagnitude negative (min word infinityWord)

/-- The number nearest to `coefficient * 10 ^ exponent`. An exponent that alone decides for zero or infinity is not
computed with. -/
def ofDecimal (negative : Bool) (d : Decimal) : Binary64 :=
  let size : Int := (Nat.toDigits 10 d.coefficient).length
  if d.coefficient = 0 ∨ d.exponent + size < -400 then ofMagnitude negative 0
  else if 400 < d.exponent + size then infinity negative
  else if 0 ≤ d.exponent then ofRatio negative (d.coefficient * Nat.pow 10 d.exponent.toNat) 1
  else ofRatio negative d.coefficient (Nat.pow 10 (-d.exponent).toNat)

def ofInt (i : Int) : Binary64 := ofRatio (decide (i < 0)) i.natAbs 1

def ofNat (n : Nat) : Binary64 := ofRatio false n 1

/-! ## The fewest digits that read back -/

/-- The reals that round to a positive number, in quarters of its unit `unitNum / unitDen`: `low` to `high` around
`value`, the ends included when the significand is even. -/
structure Neighbourhood where
  low : Nat
  value : Nat
  high : Nat
  closed : Bool
  unitNum : Nat
  unitDen : Nat

/-- The reals that round to the magnitude of `x`. Below a power of two the next smaller number is only half as far away. -/
def neighbourhood (x : Binary64) : Neighbourhood :=
  let m := x.significand
  let below := if m = binade then 1 else 2
  let power := x.scale - 2
  { low := 4 * m - below
    value := 4 * m
    high := 4 * m + 2
    closed := m % 2 == 0
    unitNum := if 0 ≤ power then Nat.pow 2 power.toNat else 1
    unitDen := if 0 ≤ power then 1 else Nat.pow 2 (-power).toNat }

/-- Does `num / den` round to the number? -/
def Neighbourhood.contains (h : Neighbourhood) (num den : Nat) : Bool :=
  let point := num * h.unitDen
  let unit := h.unitNum * den
  if h.closed then h.low * unit ≤ point && point ≤ h.high * unit else h.low * unit < point && point < h.high * unit

/-- The multiple of `10 ^ exponent` that reads back as the number, if one of the value's two neighbours on that grid does;
the nearer one if both do, the larger one if they are equally near. -/
def Neighbourhood.onGrid? (h : Neighbourhood) (exponent : Int) : Option Decimal :=
  let gridNum := if 0 ≤ exponent then Nat.pow 10 exponent.toNat else 1
  let gridDen := if 0 ≤ exponent then 1 else Nat.pow 10 (-exponent).toNat
  let num := h.value * h.unitNum * gridDen
  let den := h.unitDen * gridNum
  let lower := num / den
  let rest := num % den
  let lowerFits := h.contains (lower * gridNum) gridDen
  let upperFits := h.contains ((lower + 1) * gridNum) gridDen
  if upperFits && (!lowerFits || decide (den ≤ 2 * rest)) then some ⟨lower + 1, exponent⟩
  else if lowerFits then some ⟨lower, exponent⟩
  else none

/-- The first grid with a decimal that reads back, from the coarsest to the finest: `fuel` grids at most. -/
def Neighbourhood.coarsest (h : Neighbourhood) : Nat → Int → Decimal
  | 0, exponent => ⟨h.value, exponent⟩
  | fuel + 1, exponent =>
    match h.onGrid? exponent with
    | some d => d
    | none => h.coarsest fuel (exponent - 1)

/-- An exponent of ten above the magnitude's first digit. -/
def decimalSize (x : Binary64) : Int :=
  let (num, den) := x.ratio
  ((Nat.toDigits 10 num).length : Int) - (Nat.toDigits 10 den).length + 1

/-- A decimal with the fewest digits among those that read back as the magnitude of a finite number other than zero. -/
def shortest (x : Binary64) : Decimal :=
  Decimal.stripZeros 20 (x.neighbourhood.coarsest 40 x.decimalSize)

/-- The text of a number: the fewest digits that read back, never with an exponent. -/
def toText (x : Binary64) : String :=
  let sign := if x.isNegative then "-" else ""
  if x.isNaN then "NaN"
  else if x.isInfinite then sign ++ "inf"
  else if x.isZero then sign ++ "0"
  else sign ++ x.shortest.positional

/-- The text of a number with two places after the point, the exact value rounded, a tie to the even neighbour. -/
def toHundredths (x : Binary64) : String :=
  let sign := if x.isNegative then "-" else ""
  if x.isNaN then "NaN"
  else if x.isInfinite then sign ++ "inf"
  else
    let (num, den) := x.ratio
    sign ++ Decimal.hundredths (roundQuotient (num * 100) den)

/-- The integer part of a number, held within the range of a 64-bit integer; zero for a NaN. -/
def truncate (x : Binary64) : Int64 :=
  if x.isNaN then 0
  else if x.isInfinite then if x.isNegative then Int64.minValue else Int64.maxValue
  else
    let (num, den) := x.ratio
    let whole : Int := (num / den : Nat)
    if x.isNegative then Int64.ofInt (max (-whole) Int64.minValue.toInt) else Int64.ofInt (min whole Int64.maxValue.toInt)

/-! ## Arithmetic and order -/

def toFloat (x : Binary64) : Float := Float.ofBits x.bits

def ofFloat (x : Float) : Binary64 := ⟨x.toBits⟩

instance : Add Binary64 := ⟨fun x y => ofFloat (x.toFloat + y.toFloat)⟩

instance : Mul Binary64 := ⟨fun x y => ofFloat (x.toFloat * y.toFloat)⟩

instance : Div Binary64 := ⟨fun x y => ofFloat (x.toFloat / y.toFloat)⟩

/-- A key that orders the finite and infinite numbers; both zeros have the key 0. -/
def key (x : Binary64) : Int := if x.isNegative then -(x.magnitude : Int) else x.magnitude

/-- The order of two numbers; a NaN stands in no order. -/
def compare? (x y : Binary64) : Option Ordering :=
  if x.isNaN || y.isNaN then none else some (compare x.key y.key)

end Binary64

end ClusterPlan
