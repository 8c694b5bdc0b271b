/-!
# Rounding quotients and writing decimal numerals

`roundQuotient` rounds a quotient of natural numbers to the nearest natural number, a half to the even neighbour.
`Decimal` is a coefficient times a power of ten; `Decimal.positional` writes it without an exponent.
-/

namespace ClusterPlan

/-- The natural number nearest to `num / den`; a quotient half way between two numbers goes to the even one. -/
def roundQuotient (num den : Nat) : Nat :=
  let q := num / den
  let r := num % den
  if 2 * r < den then q
  else if den < 2 * r then q + 1
  else if q % 2 = 0 then q else q + 1

/-- The number `coefficient * 10 ^ exponent`. -/
structure Decimal where
  coefficient : Nat
  exponent : Int
deriving DecidableEq

namespace Decimal

/-- Moves factors of ten from the coefficient to the exponent, at most `n` of them. -/
def stripZeros : Nat → Decimal → Decimal
  | 0, d => d
  | n + 1, d =>
    if d.coefficient ≠ 0 ∧ d.coefficient % 10 = 0 then stripZeros n ⟨d.coefficient / 10, d.exponent + 1⟩ else d

/-- The digits of the coefficient with the point put in its place, and zeros where the digits do not reach it. -/
def positional (d : Decimal) : String :=
  let digits := Nat.toDigits 10 d.coefficient
  let point : Int := digits.length + d.exponent
  if 0 ≤ d.exponent then
    String.ofList (digits ++ List.replicate d.exponent.toNat '0')
  else if 0 < point then
    String.ofList (digits.take point.toNat ++ '.' :: digits.drop point.toNat)
  else
    String.ofList ('0' :: '.' :: List.replicate (-point).toNat '0' ++ digits)

/-- The coefficient of a number in hundredths, written with two places after the point. -/
def hundredths (n : Nat) : String :=
  let rest := n % 100
  toString (n / 100) ++ "." ++ toString (rest / 10) ++ toString (rest % 10)

end Decimal

end ClusterPlan
