import ClusterPlan.Proofs.Scan.RowOrder
import Mathlib.Data.Int.Order.Basic
import Mathlib.Data.List.Pairwise

/-!
# Sorted scans

A scan that reports SORTED for an ORDER BY gives its rows in the order of the targets, run backwards if it says so, and a scan
that reports FOR_MIN_MAX for an operand has its least and its greatest value at the two ends
(`sorted_and_extremes_of_effectiveness`). Rows are those of a scan if they agree in the fixed columns and are sorted by all.

The loop over the targets carries the proof (`precedes_targets`): as long as all columns that were taken differ from the
targets in the same way, the order by the free columns, turned round or not, refines the order by the targets.
-/

namespace ClusterPlan

namespace Scan

/-- Columns in the opposite directions, if they are to be. -/
def turned (backwards : Bool) (columns : List (Expr × Bool)) : List (Expr × Bool) :=
  columns.map fun c => (c.1, c.2 ^^ backwards)

/-- The rows come in the order of the columns, turned around if the scan is reversed. -/
theorem rowOrder_eq_turned (s : Scan) : s.rowOrder = turned s.head.reverse s.ordering := by
  cases h : s.head.reverse <;> simp [rowOrder, turned, h]

/-- Columns are turned around one by one. -/
theorem turned_append (backwards : Bool) (a b : List (Expr × Bool)) :
    turned backwards (a ++ b) = turned backwards a ++ turned backwards b :=
  List.map_append

/-- Turning around changes directions, not columns. -/
theorem map_fst_turned (backwards : Bool) (columns : List (Expr × Bool)) :
    (turned backwards columns).map (·.1) = columns.map (·.1) := by
  simp [turned]

/-- The columns that were taken decide on reading backwards: an answer is the answer of each of them. -/
theorem all_taken_of_sortedBackwards {s : Scan} {targets : List (Expr × Bool)} {backwards : Bool}
    (h : s.sortedBackwards? targets = some backwards) :
    ∃ taken, takeTargets s.fixedColumns s.freeColumns targets = some taken ∧ ∀ flag ∈ taken, flag = backwards := by
  unfold sortedBackwards? at h
  split at h
  · cases h
  · rename_i taken ht
    refine ⟨taken, ht, ?_⟩
    have hsub : ∀ flag ∈ taken, flag ∈ reversals s.fixedColumns.length s.freeColumns.length taken := by
      intro flag hf
      simp [reversals, hf]
    dsimp only at h
    split at h
    · rename_i hany
      cases h
      intro flag hf
      cases flag with
      | false => rfl
      | true =>
        have : (reversals s.fixedColumns.length s.freeColumns.length taken).any (·) = true :=
          List.any_eq_true.2 ⟨true, hsub true hf, rfl⟩
        simp [this] at hany
    · split at h
      · rename_i hall
        cases h
        intro flag hf
        exact List.all_eq_true.1 hall flag (hsub flag hf)
      · cases h

end Scan

namespace Valuation

variable {ρ ν : Type} [LinearOrder ν] {v : Valuation ρ ν}

open Scan

/-- Rows in the order of the free columns are in the order of the targets, if the columns that the targets take differ from
them in the same way and the rows agree in the fixed columns. -/
theorem precedes_targets {backwards : Bool} {fixed : List (Expr × Bool)} {r r' : ρ}
    (ha : v.Agree (fixed.map (·.1)) r r') (free targets : List (Expr × Bool)) :
    ∀ taken, takeTargets fixed free targets = some taken → (∀ flag ∈ taken, flag = backwards) →
      v.Precedes (turned backwards free) r r' → v.Precedes targets r r' := by
  fun_induction takeTargets fixed free targets with
  | case1 => exact fun _ _ _ _ => trivial
  | case2 target ascending targets hf ih =>
    intro taken ht hflags hp
    exact Or.inr ⟨v.value_eq_of_hasColumn ha hf, ih taken ht hflags hp⟩
  | case3 => intro taken ht; cases ht
  | case4 column free target ascending targets hs ih =>
    intro taken ht hflags hp
    obtain ⟨flags, hflags', rfl⟩ := Option.map_eq_some_iff.1 ht
    have hd : (column.2 ^^ backwards) = ascending := by
      have := hflags _ (List.mem_cons_self)
      revert this
      cases column.2 <;> cases ascending <;> cases backwards <;> simp
    rcases hp with hp | ⟨he, hp⟩
    · left
      rwa [hd, v.same _ _ hs] at hp
    · right
      rw [v.same _ _ hs] at he
      exact ⟨he, ih flags hflags' (fun flag hf => hflags flag (List.mem_cons_of_mem _ hf)) hp⟩
  | case5 column free target ascending targets hs hf ih =>
    intro taken ht hflags hp
    exact Or.inr ⟨v.value_eq_of_hasColumn ha hf, ih taken ht hflags hp⟩
  | case6 => intro taken ht; cases ht

/-- The least and the greatest value of an expression stand at the two ends of some rows: the least one first if the values
ascend. -/
def ExtremesAtEnds (v : Valuation ρ ν) (e : Expr) (ascending : Bool) (rows : List ρ) : Prop :=
  ∀ (h : rows ≠ []), ∀ r ∈ rows,
    if ascending then v.value e (rows.head h) ≤ v.value e r ∧ v.value e r ≤ v.value e (rows.getLast h)
    else v.value e (rows.getLast h) ≤ v.value e r ∧ v.value e r ≤ v.value e (rows.head h)

/-- Rows that are sorted by a column have its least and its greatest value at their ends. -/
theorem extremesAtEnds_of_sorted {c : Expr × Bool} {columns : List (Expr × Bool)} {rows : List ρ}
    (h : v.Sorted (c :: columns) rows) : v.ExtremesAtEnds c.1 c.2 rows := by
  intro hne r hr
  have hle : ∀ a b, v.Precedes (c :: columns) a b →
      if c.2 then v.value c.1 a ≤ v.value c.1 b else v.value c.1 b ≤ v.value c.1 a := by
    intro a b hab
    rcases hab with hab | ⟨hab, _⟩
    · unfold InFront at hab
      split at hab <;> simp_all [le_of_lt]
    · simp [hab]
  have hmono := h.imp fun {a b} hab => hle a b hab
  have hfirst := hmono.rel_head_of_rel_head_head hr (by simp)
  have hlast := hmono.rel_getLast_of_rel_getLast_getLast hr (by simp)
  split
  · rename_i hc
    simp only [hc, if_true] at hfirst hlast
    exact ⟨hfirst, hlast⟩
  · rename_i hc
    simp only [hc] at hfirst hlast
    exact ⟨hlast, hfirst⟩

/-- Rows that agree in the fixed columns of a scan and are sorted by all of its columns, or by all of them turned round, are
sorted by the free columns alone. -/
theorem sorted_freeColumns {s : Scan} {backwards : Bool} {rows : List ρ}
    (ha : v.AgreeOn (s.fixedColumns.map (·.1)) rows) (h : v.Sorted (turned backwards s.ordering) rows) :
    v.Sorted (turned backwards s.freeColumns) rows := by
  refine List.Pairwise.imp_of_mem ?_ h
  intro r r' hr hr' hp
  rw [← s.fixed_append_free, turned_append] at hp
  apply hp.of_agree
  rw [map_fst_turned]
  exact ha r hr r' hr'

end Valuation

open ClusterPlan.Valuation Scan in
/-- A scan that reports SORTED gives its rows, read backwards if it is reversed, in the order of the targets; a scan that
reports FOR_MIN_MAX has the least and the greatest value of the operand at the ends of its rows. -/
theorem sorted_and_extremes_of_effectiveness {ρ ν : Type} [LinearOrder ν] (v : Valuation ρ ν) (s : Scan)
    (targets : List (Expr × Bool)) (operand : Expr) (rows : List ρ) :
    ((s.withOrder (.orderBy targets)).head.order = .sorted →
      v.AgreeOn ((s.withOrder (.orderBy targets)).fixedColumns.map (·.1)) rows →
      v.Sorted (s.withOrder (.orderBy targets)).rowOrder rows → v.Sorted targets rows) ∧
    ((s.withOrder (.minMax operand)).head.order = .forMinMax →
      v.AgreeOn ((s.withOrder (.minMax operand)).fixedColumns.map (·.1)) rows →
      v.Sorted (s.withOrder (.minMax operand)).ordering rows →
      v.ExtremesAtEnds operand (s.isAscendingAt s.equalityCount) rows) := by
  constructor
  · intro horder ha hs
    rw [order_withOrder] at horder
    rw [fixedColumns_withOrder] at ha
    rw [rowOrder_eq_turned, reverse_withOrder, ordering_withOrder] at hs
    cases hb : s.sortedBackwards? targets with
    | none =>
      simp only [effectiveness, hb, grouping] at horder
      split at horder
      · cases horder
      · split at horder <;> cases horder
    -- The equality prefix is constant in the rows, so that the free columns alone order them; the targets follow these columns.
    | some backwards =>
      simp only [effectiveness, hb] at hs
      obtain ⟨taken, ht, hflags⟩ := all_taken_of_sortedBackwards hb
      refine List.Pairwise.imp_of_mem ?_ (sorted_freeColumns ha hs)
      intro r r' hr hr' hp
      exact precedes_targets (ha r hr r' hr') _ _ taken ht hflags hp
  · intro horder ha hs
    rw [order_withOrder] at horder
    rw [fixedColumns_withOrder] at ha
    rw [ordering_withOrder] at hs
    simp only [effectiveness] at horder
    split at horder
    · rename_i hfirst
      have hfree : s.freeColumns[0]? = s.ordering[s.equalityCount]? := by simp [freeColumns]
      cases hc : s.freeColumns with
      | nil => simp [← hfree, hc] at hfirst
      | cons c columns =>
        rw [← hfree, hc] at hfirst
        have hs' : v.Sorted (turned false s.freeColumns) rows := sorted_freeColumns ha (by simpa [turned] using hs)
        have hc' : s.isAscendingAt s.equalityCount = c.2 := by simp [isAscendingAt, ← hfree, hc]
        have hext := extremesAtEnds_of_sorted (by simpa [turned, hc] using hs')
        simp only [ExtremesAtEnds] at hext ⊢
        rw [hc', ← v.same _ _ (by simpa using hfirst)]
        exact hext
    · cases horder

namespace ReversedScan

/-- A column of the first source. -/
def column (name : String) : Expr := .column ⟨.table ⟨0⟩, 0, name, none⟩

/-- A scan by three columns, the first of which is fixed; the second one descends. -/
def scan : Scan :=
  .single { id := 1, rootMost := ⟨0⟩, leafMost := ⟨0⟩, tables := [⟨0⟩] }
    { index := ⟨"x", .table, default, [], false⟩, includeUnion := false, ascending := [true, false, true],
      ordering := [column "a", column "b", column "c"], equality := [.long 1] }

/-- The free columns in the opposite directions, with the fixed column between them. -/
def targets : List (Expr × Bool) := [(column "b", true), (column "a", true), (column "c", false)]

def rows : List (Int × Int) := [(1, 5), (1, 3), (2, 9)]

def valuation : Valuation (Int × Int) Int := .reading (column "b") (column "c") (·.1) (·.2)

end ReversedScan

open ReversedScan in
/-- A scan that has to run backwards, and rows in its order. Run forwards, the rows start with the greatest value of the
descending column. -/
theorem sorted_of_reversed_scan :
    (scan.withOrder (.orderBy targets)).head.order = .sorted ∧ (scan.withOrder (.orderBy targets)).head.reverse = true ∧
      valuation.AgreeOn ((scan.withOrder (.orderBy targets)).fixedColumns.map (·.1)) rows ∧
      valuation.Sorted (scan.withOrder (.orderBy targets)).rowOrder rows ∧ valuation.Sorted targets rows ∧
      (scan.withOrder (.minMax (column "b"))).head.order = .forMinMax ∧
      valuation.ExtremesAtEnds (column "b") false rows.reverse :=
  ⟨by decide, by decide, by decide, by decide,
    (sorted_and_extremes_of_effectiveness valuation scan targets (column "b") rows).1 (by decide) (by decide) (by decide),
    by decide,
    (sorted_and_extremes_of_effectiveness valuation scan targets (column "b") rows.reverse).2 (by decide) (by decide)
      (by decide)⟩

end ClusterPlan
