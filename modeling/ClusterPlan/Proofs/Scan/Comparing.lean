import ClusterPlan.Proofs.Duplication.Answers
import ClusterPlan.Proofs.Scan.Building
import ClusterPlan.Proofs.Scan.Renaming

/-!
# The columns that intersections compare

An intersection compares columns that stand behind the equalities in both of its scans (`Scan.Fits`). This is checked when it is
made. Afterwards the comparands of its scans cannot be set any more, but the disjunctions in them can still be counted among the
equalities, which leaves fewer columns behind these (`not_fits_of_included_unions`). The intersections in all scans that are
built fit exactly if this is only done where each of them fits with all disjunctions counted (`fits_iff_of_built`).
-/

namespace ClusterPlan

open Duplication

namespace Scan

/-- Each intersection in a scan compares at least one column, and at most as many as both of its scans have behind the
equalities. -/
def Fits : Scan → Prop
  | single _ _ => True
  | intersect _ n output selector =>
    1 ≤ n ∧ n ≤ output.freeCount ∧ n ≤ selector.freeCount ∧ output.Fits ∧ selector.Fits

/-- The columns behind the equalities and all disjunctions. -/
def openCount (s : Scan) : Nat := s.ordering.length - (s.output.equality.length + s.output.unions.length)

/-- Each intersection in a scan fits with all disjunctions counted among the equalities. -/
def Roomy : Scan → Prop
  | single _ _ => True
  | intersect _ n output selector => n ≤ output.openCount ∧ n ≤ selector.openCount ∧ output.Roomy ∧ selector.Roomy

/-- A setter that counts disjunctions among the equalities of scans that are compared in the columns of these. -/
def Change.Lengthens (c : Change) (s : Scan) : Prop := c = .includeUnion true ∧ ¬s.Roomy

/-! ## Setters -/

/-- The free columns are those behind the equality prefix. -/
theorem freeCount_eq (s : Scan) : s.freeCount = s.ordering.length - s.output.equalityCount := rfl

/-- Including the unions is noted on the scan that reads the rows. -/
theorem output_setIncludeUnion (include? : Bool) (s : Scan) :
    (s.setIncludeUnion include?).output = { s.output with includeUnion := include? } := by
  induction s using Scan.inductionOn with
  | single head x => rfl
  | intersect head n output selector ih _ =>
    rw [setIncludeUnion, Scan.output, Scan.output]
    exact ih

/-- With the unions included, the free columns are those behind the unions as well. -/
theorem freeCount_setIncludeUnion_true (s : Scan) : (s.setIncludeUnion true).freeCount = s.openCount := by
  rw [freeCount_eq, ordering, output_setIncludeUnion]
  rfl

/-- Disjunctions that are not counted leave no fewer columns. -/
theorem freeCount_le_setIncludeUnion_false (s : Scan) : s.freeCount ≤ (s.setIncludeUnion false).freeCount := by
  have hordering : (s.setIncludeUnion false).ordering = s.ordering := by
    rw [ordering, output_setIncludeUnion]
    rfl
  have hcount : (s.setIncludeUnion false).output.equalityCount ≤ s.output.equalityCount := by
    rw [output_setIncludeUnion]
    simp only [SingleScan.equalityCount, Bool.false_eq_true, if_false]
    split <;> omega
  rw [freeCount_eq, freeCount_eq, hordering]
  exact Nat.sub_le_sub_left hcount _

/-- Including the unions leaves room for the compared columns exactly if the scan is roomy. -/
theorem Fits.setIncludeUnion_true_iff {s : Scan} (h : s.Fits) : (s.setIncludeUnion true).Fits ↔ s.Roomy := by
  induction s using Scan.inductionOn with
  | single head x => exact Iff.rfl
  | intersect head n output selector iho ihs =>
    obtain ⟨hn, -, -, ho, hs⟩ := h
    rw [setIncludeUnion, Fits, freeCount_setIncludeUnion_true, freeCount_setIncludeUnion_true, iho ho, ihs hs, Roomy]
    exact and_iff_right hn

/-- Excluding the unions only frees columns. -/
theorem Fits.setIncludeUnion_false {s : Scan} (h : s.Fits) : (s.setIncludeUnion false).Fits := by
  induction s using Scan.inductionOn with
  | single head x => trivial
  | intersect head n output selector iho ihs =>
    obtain ⟨hn, hno, hns, ho, hs⟩ := h
    exact ⟨hn, Nat.le_trans hno output.freeCount_le_setIncludeUnion_false,
      Nat.le_trans hns selector.freeCount_le_setIncludeUnion_false, iho ho, ihs hs⟩

/-- The intersections in a scan still fit after a setter exactly if it does not lengthen the equalities too far. -/
theorem Fits.apply_iff {s : Scan} (h : s.Fits) (c : Change) : (c.apply s).Fits ↔ ¬c.Lengthens s := by
  cases s with
  | single head x =>
    obtain ⟨head', x', heq, -⟩ := c.apply_single head x
    rw [heq]
    exact ⟨fun _ hc => hc.2 trivial, fun _ => trivial⟩
  | intersect head n output selector =>
    rcases c.apply_intersect head n output selector with ⟨include?, rfl, -⟩ | ⟨head', hne, heq, -⟩
    · cases include? with
      | true =>
        rw [Change.apply, h.setIncludeUnion_true_iff, Change.Lengthens]
        simp
      | false =>
        refine ⟨fun _ hc => ?_, fun _ => h.setIncludeUnion_false⟩
        cases hc.1
    · rw [heq]
      exact ⟨fun _ hc => hne true hc.1, fun _ => h⟩

/-! ## Intersections and copies -/

/-- An intersection that is not refused has room for the columns that it compares. -/
theorem Fits.intersect? {output selector s : Scan} {columns : Nat} {supply supply' : Supply} (ho : output.Fits)
    (hs : selector.Fits) (h : intersect? output selector columns supply = .ok (s, supply')) : s.Fits := by
  obtain ⟨⟨hn, hno, hns⟩, head, rfl, -⟩ := intersect?_ok h
  exact ⟨hn, hno, hns, ho, hs⟩

/-- A renamed scan has as many free columns. -/
theorem freeCount_rename (ρ : Renaming) (s : Scan) : (s.rename ρ).freeCount = s.freeCount := by
  rw [freeCount, ordering_rename, equalityCount_rename, List.length_map, freeCount]

/-- A renamed scan has room for the columns that it compares exactly if the scan has. -/
theorem fits_rename (ρ : Renaming) (s : Scan) : (s.rename ρ).Fits ↔ s.Fits := by
  induction s using Scan.inductionOn with
  | single head x => rw [Scan.rename]; exact Iff.rfl
  | intersect head n output selector iho ihs => rw [Scan.rename, Fits, freeCount_rename, freeCount_rename, iho, ihs, Fits]

/-- What is compared is no matter of what a scan mentions, and all else is copied as it is. -/
theorem fits_copy (s : Scan) (σ : Duplication) : (s.copy σ).1.Fits ↔ s.Fits := by
  obtain ⟨-, -, hshape⟩ := s.answers_copy σ
  rw [← fits_rename .blank, hshape, fits_rename]

/-! ## All scans that are built -/

/-- Scans that are built without lengthening the prefix of an intersection have room for what they compare. -/
theorem Built.fits {allowed : Scan → Change → Prop} (hrule : ∀ s c, Built allowed s → allowed s c → ¬c.Lengthens s) {s : Scan}
    (h : Built allowed s) : s.Fits := by
  induction h with
  | ofIndex ctx id index rootMost leafMost ordering => trivial
  | change c hs hc ih => exact (ih.apply_iff c).2 (hrule _ c hs hc)
  | intersect columns supply _ _ hok iho ihs => exact iho.intersect? ihs hok
  | @copy s _ _ σ _ _ _ _ ih => exact (fits_copy s σ).2 ih

namespace IncludedUnions

/-- The scan of an index with two columns. -/
def twoColumns : Scan :=
  ofIndex (.withConfig {}) 1 ⟨"ab", .table, default, [], false⟩ ⟨0⟩ ⟨0⟩
    [(.column ⟨.table ⟨0⟩, 0, "a", none⟩, true), (.column ⟨.table ⟨0⟩, 1, "b", none⟩, true)]

/-- An equality on the first column and a disjunction on the second. -/
def bothCompared : Scan := (Change.addUnion [.long 2, .long 3]).apply ((Change.addEquality (.long 1)).apply twoColumns)

end IncludedUnions

open IncludedUnions in
/-- An intersection need not fit: where the disjunction in its output scan is counted among the equalities, no column is left
to compare. -/
theorem not_fits_of_included_unions : ¬∀ s, Built (fun _ _ => True) s → s.Fits := by
  intro h
  have htwo : Built (fun _ _ => True) twoColumns := .ofIndex _ _ _ _ _ _
  have hboth : Built (fun _ _ => True) bothCompared := .change _ (.change _ htwo trivial) trivial
  have hbuilt := (Built.intersect 1 {} hboth htwo rfl).change (.includeUnion true) trivial
  have hfits := (h _ hbuilt).2.1
  exact absurd hfits (by decide)

/-- Under every rule on the use of setters, the intersections in all scans that are built compare columns that exist exactly if
no setter counts disjunctions among the equalities of scans that leave too few columns behind them. -/
theorem fits_iff_of_built (allowed : Scan → Change → Prop) :
    (∀ s, Built allowed s → s.Fits) ↔ ∀ s c, Built allowed s → allowed s c → ¬c.Lengthens s := by
  constructor
  · intro h s c hs hc
    exact ((h s hs).apply_iff c).1 (h _ (hs.change c hc))
  · exact fun h s hs => hs.fits h

/-- Where intersections refuse to count disjunctions as they refuse comparands, all that are built compare columns that
exist. -/
theorem Built.fits_of_refused {s : Scan} (h : Built (fun s c => c = .includeUnion true → ∃ head x, s = .single head x) s) :
    s.Fits := by
  refine h.fits ?_
  rintro s c - hrule ⟨hc, hroomy⟩
  obtain ⟨head, x, rfl⟩ := hrule hc
  exact hroomy trivial

end Scan

end ClusterPlan
