import ClusterPlan.Binary64

/-!
# Cost estimates

How many rows a plan yields and what it costs. Row counts stop at the largest word: `Cost.nest` and `Cost.union` give the
smaller of that and the exact count.
-/

namespace ClusterPlan

/-- A row count cut off at the largest word of 64 bits. -/
def saturate (n : Nat) : UInt64 := UInt64.ofNat (min n 0xFFFFFFFFFFFFFFFF)

/-- Saturation stops at the greatest word. -/
theorem toNat_saturate (n : Nat) : (saturate n).toNat = min n 0xFFFFFFFFFFFFFFFF := by
  simp only [saturate, UInt64.toNat_ofNat']
  omega

/-- An estimate: the rows that a plan yields and the cost of all of them. -/
structure Cost where
  rows : UInt64
  amount : Binary64
deriving DecidableEq

namespace Cost

def zero : Cost := ⟨0, .zero⟩

/-- The inner plan runs once for each row of the outer one. -/
def nest (outer inner : Cost) : Cost where
  rows := saturate (outer.rows.toNat * inner.rows.toNat)
  amount := outer.amount + .ofNat outer.rows.toNat * inner.amount

/-- Both plans run, and the rows of both are yielded. -/
def union (a b : Cost) : Cost where
  rows := saturate (a.rows.toNat + b.rows.toNat)
  amount := a.amount + b.amount

/-- One plan runs after the other, whose rows are yielded. -/
def sequence (first next : Cost) : Cost where
  rows := next.rows
  amount := first.amount + next.amount

/-- Does this plan cost less? A NaN is never less. -/
def isCheaperThan (a b : Cost) : Bool := a.amount.compare? b.amount == some .lt

/-- The order by cost and then by rows. -/
def compare? (a b : Cost) : Option Ordering :=
  match a.amount.compare? b.amount with
  | some .eq => some (compare a.rows.toNat b.rows.toNat)
  | order => order

/-- Equal rows at an equal cost: a NaN equals nothing, and both zeros are equal. -/
def same (a b : Cost) : Bool := a.compare? b == some .eq

def toText (c : Cost) : String := "rows = " ++ toString c.rows.toNat ++ ", cost = " ++ c.amount.toHundredths

end Cost

end ClusterPlan
