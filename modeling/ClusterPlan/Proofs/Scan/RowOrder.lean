import ClusterPlan.Proofs.Expr.Equality
import ClusterPlan.Scan.Order
import Mathlib.Order.Lattice

/-!
# Orders of rows

What the order of a scan means for rows. A valuation gives every expression a value in each row, from a total order, so that
expressions that are the same have the same value. Rows are sorted by a list of columns if each row stands in front of those
that are greater in the first column in which they differ; a column that descends turns the order of its values round.
-/

namespace ClusterPlan

/-- The values of expressions in rows. Expressions that are the same have the same value in every row. -/
structure Valuation (ρ ν : Type) where
  value : Expr → ρ → ν
  same : ∀ a b : Expr, a.same b = true → value a = value b

namespace Valuation

/-- The valuation that reads two expressions in rows and takes all others for zero. -/
def reading {ρ : Type} (x y : Expr) (atX atY : ρ → Int) : Valuation ρ Int where
  value e r := if e.same x then atX r else if e.same y then atY r else 0
  same a b h := by
    funext r
    simp only [Expr.same_congr h]

section Agreement

variable {ρ ν : Type} (v : Valuation ρ ν)

/-- Two rows have the same values of some expressions. -/
def Agree (es : List Expr) (r r' : ρ) : Prop := ∀ e ∈ es, v.value e r = v.value e r'

/-- All rows have the same values of some expressions. -/
def AgreeOn (es : List Expr) (rows : List ρ) : Prop := ∀ r ∈ rows, ∀ r' ∈ rows, v.Agree es r r'

/-- Rows with the same values of some expressions stand together: no row with other values stands between two of them. -/
def Contiguous (es : List Expr) (rows : List ρ) : Prop :=
  ∀ a b c : ρ, [a, b, c].Sublist rows → v.Agree es a c → v.Agree es a b

instance [DecidableEq ν] (es : List Expr) (r r' : ρ) : Decidable (v.Agree es r r') :=
  inferInstanceAs (Decidable (∀ e ∈ es, v.value e r = v.value e r'))

instance [DecidableEq ν] (es : List Expr) (rows : List ρ) : Decidable (v.AgreeOn es rows) :=
  inferInstanceAs (Decidable (∀ r ∈ rows, ∀ r' ∈ rows, v.Agree es r r'))

/-- Rows agree in an expression exactly if they agree in one that is the same. -/
theorem agree_of_same {e e' : Expr} {r r' : ρ} (h : e.same e' = true) :
    v.value e r = v.value e r' ↔ v.value e' r = v.value e' r' := by
  rw [v.same e e' h]

/-- A row agrees with another one in an expression that is among columns in which the two agree. -/
theorem value_eq_of_hasColumn {columns : List (Expr × Bool)} {e : Expr} {r r' : ρ}
    (ha : v.Agree (columns.map (·.1)) r r') (h : Scan.hasColumn columns e = true) : v.value e r = v.value e r' := by
  obtain ⟨c, hc, hs⟩ := List.any_eq_true.1 h
  exact (v.agree_of_same hs).1 (ha c.1 (List.mem_map_of_mem hc))

end Agreement

section Order

variable {ρ ν : Type} [LinearOrder ν] (v : Valuation ρ ν)

/-- Is a value in front of another one in the order of a column? -/
def InFront (ascending : Bool) (a b : ν) : Prop := if ascending then a < b else b < a

/-- No value stands in front of itself. -/
theorem not_inFront_self (ascending : Bool) (a : ν) : ¬InFront ascending a a := by
  cases ascending <;> simp [InFront]

/-- Of two values only one stands in front of the other. -/
theorem InFront.asymm {ascending : Bool} {a b : ν} (h : InFront ascending a b) : ¬InFront ascending b a := by
  cases ascending <;> simpa [InFront] using le_of_lt h

/-- A row does not come behind another one: it is in front in the first column in which they differ. -/
def Precedes : List (Expr × Bool) → ρ → ρ → Prop
  | [], _, _ => True
  | (e, ascending) :: columns, r, r' =>
    InFront ascending (v.value e r) (v.value e r') ∨ v.value e r = v.value e r' ∧ Precedes columns r r'

/-- Rows stand in the lexicographic order of some columns, each in its direction. -/
def Sorted (columns : List (Expr × Bool)) (rows : List ρ) : Prop := rows.Pairwise (v.Precedes columns)

instance (ascending : Bool) (a b : ν) : Decidable (InFront ascending a b) :=
  inferInstanceAs (Decidable (if ascending then a < b else b < a))

instance decidablePrecedes (r r' : ρ) : ∀ columns, Decidable (v.Precedes columns r r')
  | [] => isTrue trivial
  | (e, ascending) :: columns =>
    have := decidablePrecedes r r' columns
    inferInstanceAs (Decidable (InFront ascending (v.value e r) (v.value e r') ∨
      v.value e r = v.value e r' ∧ v.Precedes columns r r'))

instance (columns : List (Expr × Bool)) (rows : List ρ) : Decidable (v.Sorted columns rows) :=
  inferInstanceAs (Decidable (rows.Pairwise (v.Precedes columns)))

variable {v}

/-- Where two rows agree in the first column, the columns behind it decide. -/
theorem Precedes.tail {c : Expr × Bool} {columns : List (Expr × Bool)} {r r' : ρ}
    (h : v.Precedes (c :: columns) r r') (he : v.value c.1 r = v.value c.1 r') : v.Precedes columns r r' := by
  rcases h with h | ⟨_, h⟩
  · rw [he] at h
    exact absurd h (not_inFront_self _ _)
  · exact h

/-- Where two rows agree in some columns, the columns behind them decide. -/
theorem Precedes.of_agree {columns more : List (Expr × Bool)} {r r' : ρ}
    (h : v.Precedes (columns ++ more) r r') (ha : v.Agree (columns.map (·.1)) r r') : v.Precedes more r r' := by
  induction columns with
  | nil => exact h
  | cons c columns ih => exact ih (h.tail (ha c.1 (by simp))) fun e he => ha e (List.mem_cons_of_mem _ he)

/-- Columns in which two rows agree can be put in front of those that decide. -/
theorem Precedes.append_of_agree {columns more : List (Expr × Bool)} {r r' : ρ} (h : v.Precedes more r r')
    (ha : v.Agree (columns.map (·.1)) r r') : v.Precedes (columns ++ more) r r' := by
  induction columns with
  | nil => exact h
  | cons c columns ih =>
    exact Or.inr ⟨ha c.1 (by simp), ih fun e he => ha e (List.mem_cons_of_mem _ he)⟩

/-- A row between two rows that agree in the first columns agrees with them. -/
theorem agree_of_between {columns more : List (Expr × Bool)} {a b c : ρ} (hab : v.Precedes (columns ++ more) a b)
    (hbc : v.Precedes (columns ++ more) b c) (hac : v.Agree (columns.map (·.1)) a c) :
    v.Agree (columns.map (·.1)) a b := by
  induction columns with
  | nil => intro e he; simp at he
  | cons column columns ih =>
    have he : v.value column.1 a = v.value column.1 c := hac column.1 (by simp)
    -- A step in the first column would have to be taken back on the way to the third row.
    have hb : v.value column.1 a = v.value column.1 b := by
      rcases hab with h | ⟨h, _⟩
      · rw [he] at h
        rcases hbc with h' | ⟨h', _⟩
        · exact absurd h' h.asymm
        · rw [h'] at h
          exact absurd h (not_inFront_self _ _)
      · exact h
    intro e h
    rcases List.mem_cons.1 h with rfl | h
    · exact hb
    · exact ih (hab.tail hb) (hbc.tail (hb.symm.trans he)) (fun e h => hac e (List.mem_cons_of_mem _ h)) e h

end Order

end Valuation

namespace Scan

/-- The columns of a scan in the order in which its rows come: backwards if it is reversed. -/
def rowOrder (s : Scan) : List (Expr × Bool) :=
  if s.head.reverse then s.ordering.map fun c => (c.1, !c.2) else s.ordering

/-- The columns of a scan are the fixed ones and, behind them, the free ones. -/
theorem fixed_append_free (s : Scan) : s.fixedColumns ++ s.freeColumns = s.ordering :=
  List.take_append_drop _ _

/-- A change to the head of a scan leaves the scan that reads the rows. -/
@[simp] theorem output_withHead (s : Scan) (f : ScanHead → ScanHead) : (s.withHead f).output = s.output := by
  cases s <;> rfl

/-- A change to the head of a scan is found there. -/
@[simp] theorem head_withHead (s : Scan) (f : ScanHead → ScanHead) : (s.withHead f).head = f s.head := by
  cases s <;> rfl

/-- Deciding the order of a scan does not change its columns. -/
@[simp] theorem ordering_withOrder (s : Scan) (required : RequiredOrder) :
    (s.withOrder required).ordering = s.ordering := by
  simp [withOrder, ordering]

/-- A required order changes nothing about the fixed columns. -/
@[simp] theorem fixedColumns_withOrder (s : Scan) (required : RequiredOrder) :
    (s.withOrder required).fixedColumns = s.fixedColumns := by
  simp [withOrder, fixedColumns, ordering, equalityCount]

/-- The effectiveness of a scan for the required order is noted on it. -/
@[simp] theorem order_withOrder (s : Scan) (required : RequiredOrder) :
    (s.withOrder required).head.order = (s.effectiveness required).1 := by
  simp [withOrder]

/-- Whether the scan has to be reversed for the required order is noted on it. -/
@[simp] theorem reverse_withOrder (s : Scan) (required : RequiredOrder) :
    (s.withOrder required).head.reverse = (s.effectiveness required).2 := by
  simp [withOrder]

end Scan

end ClusterPlan
