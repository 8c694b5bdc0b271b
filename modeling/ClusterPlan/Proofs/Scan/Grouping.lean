import ClusterPlan.Proofs.Scan.RowOrder
import Mathlib.Data.Int.Order.Basic
import Mathlib.Data.List.TakeWhile

/-!
# Grouped scans

A scan reports GROUPED if each target is a fixed column or among as many of the first free columns as there are targets. That
does not put rows with equal targets together by itself: targets that are fixed columns, or that repeat, are counted as well,
so that a free column that is no target can stand in front of one that is. Rows with equal targets stand together in all
valuations exactly if there is no such column (`contiguous_iff_covers`); a scan fixed in one column and grouped by that column
and the second free one is the smallest case of it (`grouped_not_contiguous`).
-/

namespace ClusterPlan

/-- The expressions that a query orders or groups by. -/
def RequiredOrder.targets : RequiredOrder → List Expr
  | orderBy targets => targets.map (·.1)
  | groupBy targets | distinct targets => targets
  | minMax operand => [operand]

namespace Scan

/-- The free columns in front of the one that a target is. -/
def inFrontOf (s : Scan) (target : Expr) : List (Expr × Bool) := s.freeColumns.takeWhile fun c => !c.1.same target

/-- Is a column a target or the same as a fixed one? -/
def isCovered (s : Scan) (targets : List Expr) (column : Expr) : Bool :=
  targets.any column.same || hasColumn s.fixedColumns column

/-- Are all free columns in front of a target that is not fixed targets themselves, or the same as fixed columns? -/
def covers (s : Scan) (targets : List Expr) : Bool :=
  targets.all fun target =>
    hasColumn s.fixedColumns target || (s.inFrontOf target).all fun c => s.isCovered targets c.1

/-- A scan reports GROUPED only for targets of which each is among the free columns or the fixed ones. -/
theorem groupedTarget_of_effectiveness {s : Scan} {required : RequiredOrder}
    (h : (s.effectiveness required).1 = .grouped) :
    required.targets ≠ [] ∧ ∀ target ∈ required.targets, s.groupedTarget required.targets.length target = true := by
  have hg : s.grouping required.targets = .grouped := by
    cases required with
    | orderBy targets =>
      simp only [effectiveness] at h
      split at h
      · cases h
      · exact h
    | groupBy targets => exact h
    | distinct targets => exact h
    | minMax operand =>
      simp only [effectiveness] at h
      split at h <;> cases h
  unfold grouping at hg
  dsimp only at hg
  split at hg
  · cases hg
  · rename_i hany
    split at hg
    · rename_i hall
      refine ⟨?_, ?_⟩
      · intro hnil
        simp [hnil] at hany
      · intro target ht
        exact List.all_eq_true.1 hall _ (List.mem_map_of_mem ht)
    · cases hg

/-- A target of a grouped scan that is not fixed is a free column, with `inFrontOf` before it. -/
theorem exists_column_of_groupedTarget {s : Scan} {n : Nat} {target : Expr}
    (h : s.groupedTarget n target = true) (hf : hasColumn s.fixedColumns target = false) :
    ∃ c more, s.freeColumns = s.inFrontOf target ++ c :: more ∧ c.1.same target = true := by
  have hmem : ∃ c ∈ s.freeColumns, c.1.same target = true := by
    unfold groupedTarget at h
    split at h
    · rename_i position hp
      obtain ⟨hlt, hs, -⟩ := List.findIdx?_eq_some_iff_getElem.1 hp
      exact ⟨_, List.getElem_mem hlt, hs⟩
    · rw [hf] at h
      cases h
  have hdrop : s.freeColumns.dropWhile (fun c => !c.1.same target) ≠ [] := by
    obtain ⟨c, hc, hs⟩ := hmem
    intro hnil
    have := List.dropWhile_eq_nil_iff.1 hnil c hc
    simp [hs] at this
  obtain ⟨c, more, hcons⟩ := List.exists_cons_of_ne_nil hdrop
  refine ⟨c, more, ?_, ?_⟩
  · rw [inFrontOf, ← hcons, List.takeWhile_append_dropWhile]
  · have := List.head_dropWhile_not (fun c : Expr × Bool => !c.1.same target) hdrop
    simpa [hcons] using this

/-- The first column in front of a target that is not covered, with the columns around it. -/
theorem exists_first_uncovered {s : Scan} {targets : List Expr} {target : Expr}
    (h : (s.inFrontOf target).all (fun c => s.isCovered targets c.1) = false) :
    ∃ before c after, s.inFrontOf target = before ++ c :: after ∧ s.isCovered targets c.1 = false ∧
      ∀ c' ∈ before, s.isCovered targets c'.1 = true := by
  obtain ⟨c, hc⟩ : ∃ c, (s.inFrontOf target).find? (fun c => !s.isCovered targets c.1) = some c := by
    rw [← Option.isSome_iff_exists, List.find?_isSome]
    obtain ⟨c, hc, hcov⟩ := List.all_eq_false.1 h
    exact ⟨c, hc, by simpa using hcov⟩
  obtain ⟨hcov, before, after, heq, hbefore⟩ := List.find?_eq_some_iff_append.1 hc
  exact ⟨before, c, after, heq, by simpa using hcov, fun c' hc' => by simpa using hbefore c' hc'⟩

/-- A column that is the same as a covered one is covered. -/
theorem isCovered_of_same {s : Scan} {targets : List Expr} {a b : Expr} (h : a.same b = true)
    (ha : s.isCovered targets a = true) : s.isCovered targets b = true := by
  simp only [isCovered, hasColumn, Bool.or_eq_true, List.any_eq_true] at ha ⊢
  rcases ha with ⟨t, ht, hs⟩ | ⟨c, hc, hs⟩
  · exact Or.inl ⟨t, ht, Expr.same_trans (Expr.same_symm h) hs⟩
  · exact Or.inr ⟨c, hc, Expr.same_trans hs h⟩

end Scan

open Scan

/-- Rows with equal targets that agree in the fixed columns agree in all columns that are covered. -/
theorem agree_of_isCovered {ρ ν : Type} [LinearOrder ν] {v : Valuation ρ ν} {s : Scan} {targets : List Expr} {r r' : ρ}
    {columns : List (Expr × Bool)} (hcov : ∀ c ∈ columns, s.isCovered targets c.1 = true)
    (hfixed : v.Agree (s.fixedColumns.map (·.1)) r r') (htargets : v.Agree targets r r') :
    v.Agree (columns.map (·.1)) r r' := by
  intro e he
  obtain ⟨c, hc, rfl⟩ := List.mem_map.1 he
  have h := hcov c hc
  rw [isCovered, Bool.or_eq_true] at h
  rcases h with htarget | hcolumn
  · obtain ⟨t, ht, hs⟩ := List.any_eq_true.1 htarget
    exact (v.agree_of_same hs).2 (htargets t ht)
  · exact v.value_eq_of_hasColumn hfixed hcolumn

/-- Where the free columns in front of the targets are covered, rows with equal targets stand together. -/
theorem contiguous_of_covers {ρ ν : Type} [LinearOrder ν] {v : Valuation ρ ν} {s : Scan} {targets : List Expr}
    {rows : List ρ} (hg : ∀ target ∈ targets, s.groupedTarget targets.length target = true)
    (hcov : s.covers targets = true) (ha : v.AgreeOn (s.fixedColumns.map (·.1)) rows)
    (hs : v.Sorted s.ordering rows) : v.Contiguous targets rows := by
  intro a b c hsub hac target ht
  have hab : v.Agree (s.fixedColumns.map (·.1)) a b := ha a (hsub.subset (by simp)) b (hsub.subset (by simp))
  have hbc : v.Agree (s.fixedColumns.map (·.1)) b c := ha b (hsub.subset (by simp)) c (hsub.subset (by simp))
  have hac' : v.Agree (s.fixedColumns.map (·.1)) a c := ha a (hsub.subset (by simp)) c (hsub.subset (by simp))
  cases hf : hasColumn s.fixedColumns target with
  | true => exact v.value_eq_of_hasColumn hab hf
  | false =>
    obtain ⟨column, more, hfree, hsame⟩ := exists_column_of_groupedTarget (hg target ht) hf
    have hprec : ∀ {r r'}, [r, r'].Sublist rows → v.Agree (s.fixedColumns.map (·.1)) r r' →
        v.Precedes ((s.inFrontOf target ++ [column]) ++ more) r r' := by
      intro r r' hrr' hagree
      have h := List.pairwise_iff_forall_sublist.1 hs hrr'
      rw [← s.fixed_append_free] at h
      have h' := h.of_agree hagree
      rwa [hfree, List.append_cons] at h'
    have hfront : v.Agree ((s.inFrontOf target).map (·.1)) a c := by
      have h := List.all_eq_true.1 hcov target ht
      rw [hf, Bool.false_or] at h
      exact agree_of_isCovered (List.all_eq_true.1 h) hac' hac
    have hequal : v.Agree ((s.inFrontOf target ++ [column]).map (·.1)) a c := by
      intro e he
      rw [List.map_append, List.map_singleton, List.mem_append, List.mem_singleton] at he
      rcases he with he | rfl
      · exact hfront e he
      · exact (v.agree_of_same hsame).2 (hac target ht)
    have hsub_ab : [a, b].Sublist rows := List.Sublist.trans (by simp) hsub
    have hsub_bc : [b, c].Sublist rows := List.Sublist.trans (by simp) hsub
    -- The row in the middle is between two rows that agree on the columns up to that of the target, so it agrees with them.
    have hbetween := Valuation.agree_of_between (hprec hsub_ab hab) (hprec hsub_bc hbc) hequal
    exact (v.agree_of_same hsame).1 (hbetween column.1 (by simp))

/-! ## Rows that do not stand together -/

/-- Rows that are numbers: a column has them as its values in its order, and the target has one value for 1 and another one
for all others. -/
def returning (column : Expr × Bool) (target : Expr) : Valuation Int Int :=
  .reading column.1 target (fun r => if column.2 then r else -r) (fun r => if r = 1 then 1 else 0)

section Returning

variable {column : Expr × Bool} {target : Expr}

/-- In the rows that return, the first uncovered column goes on, in its direction. -/
theorem value_returning_column (r : Int) : (returning column target).value column.1 r = if column.2 then r else -r := by
  simp [returning, Valuation.reading, Expr.same_refl]

/-- In the rows that return, the target has one value at both ends and another one between. -/
theorem value_returning_target (h : target.same column.1 = false) (r : Int) :
    (returning column target).value target r = if r = 1 then 1 else 0 := by
  simp [returning, Valuation.reading, h, Expr.same_refl]

/-- Rows differ in the two expressions only. -/
theorem agree_returning {columns : List (Expr × Bool)}
    (h : ∀ c ∈ columns, c.1.same column.1 = false ∧ c.1.same target = false) (r r' : Int) :
    (returning column target).Agree (columns.map (·.1)) r r' := by
  intro e he
  obtain ⟨c, hc, rfl⟩ := List.mem_map.1 he
  simp [returning, Valuation.reading, h c hc]

/-- Rows ascend by a column that stands behind columns in which they agree. -/
theorem precedes_returning {before after : List (Expr × Bool)}
    (h : ∀ c ∈ before, c.1.same column.1 = false ∧ c.1.same target = false) {r r' : Int} (hlt : r < r') :
    (returning column target).Precedes (before ++ column :: after) r r' := by
  refine Valuation.Precedes.append_of_agree (Or.inl ?_) (agree_returning h r r')
  simp only [Valuation.InFront, value_returning_column]
  split <;> omega

/-- Where the target is among the targets and none of them is the column, the rows do not stand together. -/
theorem not_contiguous_returning {targets : List Expr} (ht : target ∈ targets)
    (h : ∀ t ∈ targets, t.same column.1 = false) : ¬(returning column target).Contiguous targets [0, 1, 2] := by
  intro hcontig
  have hends : (returning column target).Agree targets 0 2 := by
    intro t ht'
    simp [returning, Valuation.reading, h t ht']
  have hvalue := hcontig 0 1 2 (List.Sublist.refl _) hends target ht
  rw [value_returning_target (h target ht), value_returning_target (h target ht)] at hvalue
  revert hvalue
  decide

end Returning

/-- Where a free column in front of a target is not covered, there are rows in the order of the scan with equal targets that
do not stand together: the column takes three values in its order, and the target comes back to its first value. -/
theorem exists_not_contiguous {s : Scan} {targets : List Expr}
    (hg : ∀ target ∈ targets, s.groupedTarget targets.length target = true) (hcov : s.covers targets = false) :
    ∃ (v : Valuation Int Int) (rows : List Int), v.AgreeOn (s.fixedColumns.map (·.1)) rows ∧
      v.Sorted s.ordering rows ∧ ¬v.Contiguous targets rows := by
  obtain ⟨target, ht, hc⟩ := List.all_eq_false.1 hcov
  simp only [Bool.or_eq_true, not_or, Bool.not_eq_true] at hc
  obtain ⟨hf, hc⟩ := hc
  obtain ⟨before, column, after, hfront, huncov, hbefore⟩ := exists_first_uncovered hc
  obtain ⟨last, more, hfree, -⟩ := exists_column_of_groupedTarget (hg target ht) hf
  have hnot := huncov
  simp only [isCovered, Bool.or_eq_false_iff] at hnot
  have htargets : ∀ t ∈ targets, t.same column.1 = false := by
    intro t ht'
    have h := List.any_eq_false.1 hnot.1 t ht'
    exact Bool.eq_false_iff.2 fun h' => h (Expr.same_symm h')
  have hfixed : ∀ c ∈ s.fixedColumns, c.1.same column.1 = false ∧ c.1.same target = false := by
    intro c hc'
    exact ⟨by simpa using List.any_eq_false.1 hnot.2 c hc', by simpa using List.any_eq_false.1 hf c hc'⟩
  have hahead : ∀ c ∈ before, c.1.same column.1 = false ∧ c.1.same target = false := by
    intro c hc'
    constructor
    · refine Bool.eq_false_iff.2 fun h => ?_
      rw [isCovered_of_same h (hbefore c hc')] at huncov
      cases huncov
    · have hmem : c ∈ s.inFrontOf target := by
        rw [hfront]
        exact List.mem_append_left _ hc'
      simpa using List.mem_takeWhile_imp hmem
  -- All columns in front of the uncovered one are constant in these rows, so that the uncovered one decides.
  have hsorted : ∀ r r', r < r' → (returning column target).Precedes s.ordering r r' := by
    intro r r' hlt
    rw [← s.fixed_append_free, hfree, hfront, List.append_assoc, List.cons_append, ← List.append_assoc]
    refine precedes_returning ?_ hlt
    intro c hc'
    exact (List.mem_append.1 hc').elim (hfixed c) (hahead c)
  refine ⟨returning column target, [0, 1, 2], fun r _ r' _ => agree_returning hfixed r r', ?_,
    not_contiguous_returning ht htargets⟩
  refine List.Pairwise.imp (fun {a b} h => hsorted a b h) ?_
  decide

/-- A scan that reports GROUPED puts rows with equal targets together, whatever the values of the rows, exactly if the free
columns in front of the targets are covered. -/
theorem contiguous_iff_covers (s : Scan) (required : RequiredOrder)
    (h : (s.withOrder required).head.order = .grouped) :
    s.covers required.targets = true ↔
      ∀ (ρ ν : Type) [LinearOrder ν] (v : Valuation ρ ν) (rows : List ρ),
        v.AgreeOn (s.fixedColumns.map (·.1)) rows → v.Sorted s.ordering rows → v.Contiguous required.targets rows := by
  rw [order_withOrder] at h
  obtain ⟨-, hg⟩ := groupedTarget_of_effectiveness h
  constructor
  · intro hcov ρ ν _ v rows ha hs
    exact contiguous_of_covers hg hcov ha hs
  · intro hall
    refine Bool.of_not_eq_false fun hcov => ?_
    obtain ⟨v, rows, ha, hs, hnot⟩ := exists_not_contiguous hg hcov
    exact hnot (hall Int Int v rows ha hs)

namespace GroupedScan

def column (name : String) : Expr := .column ⟨.table ⟨0⟩, 0, name, none⟩

/-- A scan by three columns, the first of which is fixed. -/
def scan : Scan :=
  .single { id := 1, rootMost := ⟨0⟩, leafMost := ⟨0⟩, tables := [⟨0⟩] }
    { index := ⟨"abc", .table, default, [], false⟩, includeUnion := false, ascending := [true, true, true],
      ordering := [column "a", column "b", column "c"], equality := [.long 1] }

/-- The two free columns of the rows, in the order of the scan. -/
def rows : List (Int × Int) := [(0, 0), (1, 1), (2, 0)]

def valuation : Valuation (Int × Int) Int := .reading (column "b") (column "c") (·.1) (·.2)

end GroupedScan

open GroupedScan in
/-- The fixed column counts as a target, so that the last column seems to be near enough; the column between them keeps rows
with equal targets apart. -/
theorem grouped_not_contiguous :
    ¬∀ (s : Scan) (required : RequiredOrder), (s.withOrder required).head.order = .grouped →
      ∀ (ρ ν : Type) [LinearOrder ν] (v : Valuation ρ ν) (rows : List ρ),
        v.AgreeOn (s.fixedColumns.map (·.1)) rows → v.Sorted s.ordering rows → v.Contiguous required.targets rows := by
  intro h
  have hends : valuation.Agree [column "a", column "c"] (0, 0) (2, 0) := by decide
  have hmiddle : ¬valuation.Agree [column "a", column "c"] (0, 0) (1, 1) := by decide
  have hcontig := h scan (.groupBy [column "a", column "c"]) (by decide) (Int × Int) Int valuation rows (by decide)
    (by decide)
  exact hmiddle (hcontig (0, 0) (1, 1) (2, 0) (List.Sublist.refl _) hends)

open GroupedScan in
/-- Grouped by the fixed column and the first free one, the rows do stand together. -/
theorem contiguous_of_covered_scan :
    (scan.withOrder (.groupBy [column "a", column "b"])).head.order = .grouped ∧
      valuation.Contiguous [column "a", column "b"] rows :=
  ⟨by decide, (contiguous_iff_covers scan (.groupBy [column "a", column "b"]) (by decide)).1 (by decide)
    (Int × Int) Int valuation rows (by decide) (by decide)⟩

end ClusterPlan
