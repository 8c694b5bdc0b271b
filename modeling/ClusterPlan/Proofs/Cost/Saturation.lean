import ClusterPlan.Cost

/-!
# Row counts of combined estimates

Each combination of two estimates cuts its row count off at the largest word. The row count of estimates that are combined in
any number of steps is all the same the exact one, cut off once (`Combination.rows_cost`): a product or a sum of counts that were
cut off reaches the limit exactly if that of the exact counts does, and a factor zero is left alone. So the ways to rearrange
products and sums, which keep the exact count, keep the row count too (`rows_of_combination`).
-/

namespace ClusterPlan

/-! ## Cutting off -/

/-- A word is what its number saturates to. -/
theorem saturate_toNat (n : UInt64) : saturate n.toNat = n := by
  have hlt := n.toNat_lt
  rw [← UInt64.toNat_inj, toNat_saturate]
  omega

/-- The factors of a product can be cut off before the product is. -/
theorem min_mul_min (m n limit : Nat) : min (min m limit * min n limit) limit = min (m * n) limit := by
  obtain rfl | hm := Nat.eq_zero_or_pos m
  · rw [Nat.zero_min, Nat.zero_mul, Nat.zero_mul]
  obtain rfl | hn := Nat.eq_zero_or_pos n
  · rw [Nat.zero_min, Nat.mul_zero, Nat.mul_zero]
  by_cases hfit : m ≤ limit ∧ n ≤ limit
  · rw [Nat.min_eq_left hfit.1, Nat.min_eq_left hfit.2]
  obtain rfl | hlimit := Nat.eq_zero_or_pos limit
  · rw [Nat.min_zero, Nat.min_zero]
  -- One factor is above the limit and the other one is not zero, so that both products reach the limit.
  have hexact : limit ≤ m * n := by
    obtain h | h := Decidable.not_and_iff_or_not.1 hfit
    · exact Nat.le_trans (Nat.le_of_not_le h) (Nat.le_mul_of_pos_right m hn)
    · exact Nat.le_trans (Nat.le_of_not_le h) (Nat.le_mul_of_pos_left n hm)
  have hcut : limit ≤ min m limit * min n limit := by
    obtain h | h := Decidable.not_and_iff_or_not.1 hfit
    · rw [Nat.min_eq_right (Nat.le_of_not_le h)]
      exact Nat.le_mul_of_pos_right limit (Nat.lt_min.2 ⟨hn, hlimit⟩)
    · rw [Nat.min_eq_right (Nat.le_of_not_le h)]
      exact Nat.le_mul_of_pos_left limit (Nat.lt_min.2 ⟨hm, hlimit⟩)
  rw [Nat.min_eq_right hcut, Nat.min_eq_right hexact]

/-- Whether factors are saturated first makes no difference to the saturated product. -/
theorem saturate_mul_saturate (m n : Nat) : saturate ((saturate m).toNat * (saturate n).toNat) = saturate (m * n) := by
  rw [← UInt64.toNat_inj, toNat_saturate, toNat_saturate, toNat_saturate, toNat_saturate, min_mul_min]

/-- Whether terms are saturated first makes no difference to the saturated sum. -/
theorem saturate_add_saturate (m n : Nat) : saturate ((saturate m).toNat + (saturate n).toNat) = saturate (m + n) := by
  rw [← UInt64.toNat_inj, toNat_saturate, toNat_saturate, toNat_saturate, toNat_saturate]
  omega

/-! ## Combinations -/

/-- How an estimate is put together from given ones. -/
inductive Combination where
  | estimate (c : Cost)
  | nest (outer inner : Combination)
  | union (a b : Combination)
  | sequence (first next : Combination)

namespace Combination

/-- The estimate that is put together. -/
def cost : Combination → Cost
  | estimate c => c
  | nest outer inner => outer.cost.nest inner.cost
  | union a b => a.cost.union b.cost
  | sequence first next => first.cost.sequence next.cost

/-- The number of rows where no word bounds it. -/
def exactRows : Combination → Nat
  | estimate c => c.rows.toNat
  | nest outer inner => outer.exactRows * inner.exactRows
  | union a b => a.exactRows + b.exactRows
  | sequence _ next => next.exactRows

/-- The row count is the exact one, cut off once. -/
theorem rows_cost (c : Combination) : c.cost.rows = saturate c.exactRows := by
  induction c with
  | estimate c => exact (saturate_toNat c.rows).symm
  | nest outer inner houter hinner =>
    rw [cost, Cost.nest, houter, hinner, saturate_mul_saturate, exactRows]
  | union a b ha hb =>
    rw [cost, Cost.union, ha, hb, saturate_add_saturate, exactRows]
  | sequence first next _ hnext =>
    rw [cost, Cost.sequence, hnext, exactRows]

/-- Operands of `nest` or of `union` are exchanged or regrouped, or `nest` is distributed over `union`, anywhere in a
combination, in either direction and any number of times. -/
inductive Rearranges : Combination → Combination → Prop where
  | nest_comm (a b : Combination) : Rearranges (a.nest b) (b.nest a)
  | nest_assoc (a b c : Combination) : Rearranges ((a.nest b).nest c) (a.nest (b.nest c))
  | union_comm (a b : Combination) : Rearranges (a.union b) (b.union a)
  | union_assoc (a b c : Combination) : Rearranges ((a.union b).union c) (a.union (b.union c))
  | nest_union (a b c : Combination) : Rearranges (a.nest (b.union c)) ((a.nest b).union (a.nest c))
  | nest {a a' b b' : Combination} : Rearranges a a' → Rearranges b b' → Rearranges (a.nest b) (a'.nest b')
  | union {a a' b b' : Combination} : Rearranges a a' → Rearranges b b' → Rearranges (a.union b) (a'.union b')
  | sequence {a a' b b' : Combination} : Rearranges a a' → Rearranges b b' → Rearranges (a.sequence b) (a'.sequence b')
  | refl (a : Combination) : Rearranges a a
  | symm {a b : Combination} : Rearranges a b → Rearranges b a
  | trans {a b c : Combination} : Rearranges a b → Rearranges b c → Rearranges a c

/-- Rearranging a combination leaves the exact number of rows. -/
theorem Rearranges.exactRows_eq {c c' : Combination} (h : c.Rearranges c') : c'.exactRows = c.exactRows := by
  induction h with
  | nest_comm a b => exact Nat.mul_comm _ _
  | nest_assoc a b c => exact (Nat.mul_assoc _ _ _).symm
  | union_comm a b => exact Nat.add_comm _ _
  | union_assoc a b c => exact (Nat.add_assoc _ _ _).symm
  | nest_union a b c => exact (Nat.mul_add _ _ _).symm
  | nest _ _ ha hb => rw [exactRows, exactRows, ha, hb]
  | union _ _ ha hb => rw [exactRows, exactRows, ha, hb]
  | sequence _ _ _ hb => rw [exactRows, exactRows, hb]
  | refl a => rfl
  | symm _ ih => exact ih.symm
  | trans _ _ ih ih' => exact ih'.trans ih

end Combination

/-- The row count of a combination of estimates is the smaller of the largest word and the exact count. Exchanging and regrouping
operands of `nest` or `union` and distributing `nest` over `union` do not change it, whatever was cut off on the way. -/
theorem rows_of_combination (c : Combination) :
    c.cost.rows.toNat = min (UInt64.size - 1) c.exactRows ∧
      ∀ c' : Combination, c.Rearranges c' → c'.cost.rows = c.cost.rows := by
  constructor
  · rw [c.rows_cost, toNat_saturate, Nat.min_comm]
    rfl
  · intro c' h
    rw [c'.rows_cost, c.rows_cost, h.exactRows_eq]

namespace Combination

/-- An estimate of a number of rows that cost nothing. -/
def ofRows (n : UInt64) : Combination := estimate ⟨n, .zero⟩

/-- The product of two large numbers of rows is cut off, and then multiplied by a sum. -/
def nested : Combination := ((ofRows 0x8000000000000000).nest (ofRows 4)).nest ((ofRows 0).union (ofRows 0))

/-- The same numbers in another order, where no product is cut off. -/
def unfolded : Combination :=
  (ofRows 0x8000000000000000).nest (((ofRows 4).nest (ofRows 0)).union ((ofRows 4).nest (ofRows 0)))

/-- The nested combination is a rearrangement of the flat one. -/
theorem rearranges_nested : nested.Rearranges unfolded :=
  .trans (.nest_assoc _ _ _) (.nest (.refl _) (.nest_union _ _ _))

end Combination

open Combination in
/-- No row is left of a product that was cut off. -/
theorem rows_of_nested :
    ((ofRows 0x8000000000000000).nest (ofRows 4)).cost.rows = 0xFFFFFFFFFFFFFFFF ∧ nested.Rearranges unfolded ∧
      nested.cost.rows.toNat = min (UInt64.size - 1) nested.exactRows ∧ unfolded.cost.rows = nested.cost.rows ∧
      nested.cost.rows = 0 :=
  ⟨rfl, rearranges_nested, (rows_of_combination nested).1, (rows_of_combination nested).2 unfolded rearranges_nested, rfl⟩

end ClusterPlan
