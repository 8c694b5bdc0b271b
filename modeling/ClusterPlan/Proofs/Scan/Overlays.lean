import ClusterPlan.Proofs.Scan.Usefulness
import Mathlib.Algebra.BigOperators.Group.List.Basic
import Mathlib.Algebra.GroupWithZero.Nat

/-!
# Counters laid over each other

Candidate scans count their conditions on one counter or on several. An overlay of counters only learns from each of them
whether a condition has been counted never, once or more often, which is enough: what a view answers is the summary of the sum
over its counters (`CountView.howMany_eq`), however the view is put together. So a view answers like one counter on which all
scans are counted, in any order, and the same scans are useful (`howMany_agrees`).
-/

namespace ClusterPlan

namespace CountView

/-- A view answers with the summary of the sum over its counters. -/
theorem howMany_eq (v : CountView) (c : ConditionId) : v.howMany c = .ofCount (v.counters.map (Counts.count · c)).sum := by
  induction v with
  | counter counts => exact congrArg HowMany.ofCount (Nat.add_zero _).symm
  | overlay first second ihf ihs =>
    rw [howMany, ihf, ihs, HowMany.overlay_ofCount, counters, List.map_append, List.sum_append]

/-- Neither the nesting of a view nor the order of its counters matters. -/
theorem howMany_congr {v w : CountView} (h : v.counters.Perm w.counters) : v.howMany = w.howMany := by
  funext c
  rw [howMany_eq, howMany_eq, (h.map _).sum_eq]

end CountView

namespace Scan

/-- The counter on which some scans are counted one after the other. -/
def countAll (scans : List Scan) : Counts := scans.foldl countConditions {}

/-- Scans that are counted one after the other add what each of them consumes. -/
theorem count_foldl_countConditions (counts : Counts) (scans : List Scan) (c : ConditionId) :
    (scans.foldl countConditions counts).count c = counts.count c + (scans.map (·.consumed.count c)).sum := by
  induction scans generalizing counts with
  | nil => rfl
  | cons s scans ih => rw [List.foldl_cons, ih, count_countConditions, List.map_cons, List.sum_cons, Nat.add_assoc]

/-- After some scans a condition has been counted as often as their indexes consume it. -/
theorem count_countAll (scans : List Scan) (c : ConditionId) :
    (countAll scans).count c = (scans.map (·.consumed.count c)).sum :=
  (count_foldl_countConditions {} scans c).trans (Nat.zero_add _)

/-- Counting in several series and adding up is counting all at once. -/
theorem sum_count_countAll (series : List (List Scan)) (c : ConditionId) :
    ((series.map countAll).map (Counts.count · c)).sum = (countAll series.flatten).count c := by
  induction series with
  | nil => rfl
  | cons scans series ih =>
    rw [List.map_cons, List.map_cons, List.sum_cons, ih, count_countAll, count_countAll, count_countAll, List.flatten_cons,
      List.map_append, List.sum_append]

/-- A view on counters on which some series of scans were counted answers like one counter for all the scans in any order. -/
theorem howMany_eq_countAll {v : CountView} {series : List (List Scan)} {all : List Scan}
    (hv : v.counters.Perm (series.map countAll)) (hall : all.Perm series.flatten) : v.howMany = (countAll all).howMany := by
  funext c
  rw [CountView.howMany_eq, (hv.map _).sum_eq, sum_count_countAll, Counts.howMany, count_countAll, count_countAll,
    (hall.map _).sum_eq]

/-- Counters laid over each other answer like one counter on which everything is counted in any order: two counters for two
series of scans, and any number of counters in any nesting and order. So the same scans are useful. Views on the same counters,
whatever was counted on them, answer alike. -/
theorem howMany_agrees :
    (∀ first second all : List Scan, all.Perm (first ++ second) →
        (∀ c, (CountView.overlay (.counter (countAll first)) (.counter (countAll second))).howMany c =
            (countAll all).howMany c) ∧
          ∀ s : Scan, s.isUseful (CountView.overlay (.counter (countAll first)) (.counter (countAll second))).howMany =
            s.isUseful (countAll all).howMany) ∧
      (∀ (series : List (List Scan)) (all : List Scan) (v : CountView), v.counters.Perm (series.map countAll) →
        all.Perm series.flatten →
          (∀ c, v.howMany c = (countAll all).howMany c) ∧
            ∀ s : Scan, s.isUseful v.howMany = s.isUseful (countAll all).howMany) ∧
      ∀ v w : CountView, v.counters.Perm w.counters →
        (∀ c, v.howMany c = w.howMany c) ∧ ∀ s : Scan, s.isUseful v.howMany = s.isUseful w.howMany := by
  refine ⟨?_, ?_, ?_⟩
  · intro first second all hall
    have hflatten : all.Perm [first, second].flatten := by simpa using hall
    have hsame : (CountView.overlay (.counter (countAll first)) (.counter (countAll second))).howMany = (countAll all).howMany :=
      howMany_eq_countAll (.refl _) hflatten
    exact ⟨congrFun hsame, fun s => congrArg s.isUseful hsame⟩
  · intro series all v hv hall
    have hsame := howMany_eq_countAll hv hall
    exact ⟨congrFun hsame, fun s => congrArg s.isUseful hsame⟩
  · intro v w h
    have hsame := CountView.howMany_congr h
    exact ⟨congrFun hsame, fun s => congrArg s.isUseful hsame⟩

namespace SharedCondition

/-- An index and an intersection on one counter, another index on a second one. -/
def apart : CountView := .overlay (.counter (countAll [withOwn 1, two])) (.counter (countAll [withOwn 3]))

/-- The same scans on one counter, the last one first. -/
def together : Counts := countAll [withOwn 3, two, withOwn 1]

end SharedCondition

open SharedCondition in
/-- The intersection is of no use beside the index that consumes all that one of its two scans does, and the overlay knows. -/
theorem howMany_agrees_of_shared_condition :
    together.howMany ⟨1⟩ = .many ∧ together.howMany ⟨3⟩ = .one ∧ (∀ c, apart.howMany c = together.howMany c) ∧
      two.isUseful apart.howMany = false ∧ (withOwn 3).isUseful apart.howMany = true := by
  have hall : [withOwn 3, two, withOwn 1].Perm ([withOwn 1, two] ++ [withOwn 3]) := List.reverse_perm [withOwn 1, two, withOwn 3]
  obtain ⟨hcounts, huseful⟩ := howMany_agrees.1 [withOwn 1, two] [withOwn 3] _ hall
  exact ⟨by decide +kernel, by decide +kernel, hcounts, (huseful two).trans (by decide +kernel),
    (huseful (withOwn 3)).trans (by decide +kernel)⟩

end Scan

end ClusterPlan
