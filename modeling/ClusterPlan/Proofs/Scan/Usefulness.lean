import ClusterPlan.Proofs.Scan.Counting

/-!
# When intersections are useful

An intersection is useful if each of its indexes is the only scan to consume some condition. What decides is a count over the
whole scan, which says no more of a condition than that it was met never, once or more often. Since no index lists a condition
twice (`Built.nodup_consumedBy`), a condition is met once exactly if one index alone consumes it, and a scan is useful exactly
if each of its indexes consumes a condition that no other one does (`isUseful_iff_of_built`).
-/

namespace ClusterPlan

open Duplication

/-- A count is one exactly if it is the number one. -/
theorem HowMany.ofCount_eq_one_iff (n : Nat) : ofCount n = one ↔ n = 1 := by
  match n with
  | 0 => simp [ofCount]
  | 1 => simp [ofCount]
  | n + 2 => simp [ofCount]

namespace Scan

/-! ## Indexes that list no condition twice -/

/-- Including the unions changes nothing about which leaf consumes what. -/
theorem consumedBy_setIncludeUnion (include? : Bool) (s : Scan) : (s.setIncludeUnion include?).consumedBy = s.consumedBy := by
  induction s using Scan.inductionOn with
  | single head x => rfl
  | intersect head n output selector iho ihs => rw [setIncludeUnion, consumedBy, iho, ihs, consumedBy]

/-- A setter adds conditions to an index, and none to the indexes of an intersection. -/
theorem nodup_consumedBy_apply {s : Scan} (h : ∀ cs ∈ s.consumedBy, cs.Nodup) (c : Change) :
    ∀ cs ∈ (c.apply s).consumedBy, cs.Nodup := by
  cases s with
  | single head x =>
    obtain ⟨head', x', heq, hconditions⟩ := c.apply_single head x
    rw [heq]
    intro cs hcs
    rw [List.mem_singleton.1 hcs, hconditions]
    exact nodup_appendNew (h _ (List.mem_singleton_self _))
  | intersect head n output selector =>
    rcases c.apply_intersect head n output selector with ⟨include?, rfl, -⟩ | ⟨head', -, heq, -⟩
    · exact (consumedBy_setIncludeUnion include? (.intersect head n output selector)).symm ▸ h
    · rw [heq]
      exact h

/-- No index of a scan that is built lists a condition twice. -/
theorem Built.nodup_consumedBy {allowed : Scan → Change → Prop} {s : Scan} (h : Built allowed s) :
    ∀ cs ∈ s.consumedBy, cs.Nodup := by
  induction h with
  | ofIndex ctx id index rootMost leafMost ordering =>
    intro cs hcs
    rw [List.mem_singleton.1 hcs]
    exact List.nodup_nil
  | change c _ _ ih => exact nodup_consumedBy_apply ih c
  | intersect columns supply _ _ hok iho ihs =>
    obtain ⟨-, head, rfl, -⟩ := intersect?_ok hok
    intro cs hcs
    exact (List.mem_append.1 hcs).elim (iho cs) (ihs cs)
  | copy _ hctx hσ hhas ih =>
    obtain ⟨σ', hunique, -, hcopies⟩ := exists_copiesEach hctx hσ hhas
    intro cs' hcs'
    obtain ⟨cs, hcopy⟩ := exists_of_forall₂ hcopies hcs'
    have hcs := (mem_iff_of_forall₂ hunique.forall₂ hcopies hcopy).2 hcs'
    exact (List.rel_nodup hunique hcopy).1 (ih cs hcs)

/-! ## Conditions that are met once -/

/-- Where no list repeats anything, what is in one of them is met once exactly if it is in no other. -/
theorem count_flatten_eq_one_iff {leaves : List (List ConditionId)} (hnodup : ∀ cs ∈ leaves, cs.Nodup) {i : Nat}
    {cs : List ConditionId} (hi : leaves[i]? = some cs) {c : ConditionId} (hc : c ∈ cs) :
    leaves.flatten.count c = 1 ↔ ∀ (j : Nat) (other : List ConditionId), j ≠ i → leaves[j]? = some other → c ∉ other := by
  obtain ⟨hlt, hget⟩ := List.getElem?_eq_some_iff.1 hi
  have hcount : leaves.flatten.count c = 1 + (leaves.eraseIdx i).flatten.count c := by
    have hone : cs.count c = 1 := List.count_eq_one_of_mem (hnodup cs (List.mem_of_getElem? hi)) hc
    rw [← (List.getElem_cons_eraseIdx_perm hlt).flatten.count_eq c, List.flatten_cons, List.count_append, hget, hone]
  rw [hcount, Nat.add_eq_left, List.count_eq_zero, List.mem_flatten]
  simp only [List.mem_eraseIdx_iff_getElem?, not_exists, not_and]
  constructor
  · exact fun h j other hne hj => h other ⟨j, hne, hj⟩
  · rintro h other ⟨j, hne, hj⟩
    exact h j other hne hj

/-- A condition is counted once exactly if the leaves consume it once in all. -/
theorem howMany_eq_one_iff {s : Scan} {c : ConditionId} :
    (s.countConditions {}).howMany c = .one ↔ s.consumedBy.flatten.count c = 1 := by
  have hempty : ({} : Counts).count c = 0 := rfl
  rw [Counts.howMany, HowMany.ofCount_eq_one_iff, count_countConditions, hempty, Nat.zero_add, flatten_consumedBy]

/-- A scan is useful exactly if each of its indexes consumes a condition of which there is one. -/
theorem isUseful_iff (howMany : ConditionId → HowMany) (s : Scan) :
    s.isUseful howMany = true ↔ ∀ cs ∈ s.consumedBy, ∃ c ∈ cs, howMany c = .one := by
  induction s using Scan.inductionOn with
  | single head x => simp only [isUseful, List.any_eq_true, beq_iff_eq, consumedBy, List.mem_singleton, forall_eq]
  | intersect head n output selector iho ihs =>
    rw [isUseful, Bool.and_eq_true, iho, ihs, consumedBy, List.forall_mem_append]

/-- A scan that is built in any way, and counted alone, is useful exactly if each of its indexes consumes a condition that none
of its other indexes consumes. -/
theorem isUseful_iff_of_built {allowed : Scan → Change → Prop} {s : Scan} (h : Built allowed s) :
    s.isUseful (s.countConditions {}).howMany = true ↔
      ∀ (i : Nat) (cs : List ConditionId), s.consumedBy[i]? = some cs →
        ∃ c ∈ cs, ∀ (j : Nat) (other : List ConditionId), j ≠ i → s.consumedBy[j]? = some other → c ∉ other := by
  simp only [isUseful_iff, howMany_eq_one_iff]
  constructor
  · intro huseful i cs hi
    obtain ⟨c, hc, hone⟩ := huseful cs (List.mem_of_getElem? hi)
    exact ⟨c, hc, (count_flatten_eq_one_iff h.nodup_consumedBy hi hc).1 hone⟩
  · intro halone cs hcs
    obtain ⟨i, hi⟩ := List.getElem?_of_mem hcs
    obtain ⟨c, hc, hothers⟩ := halone i cs hi
    exact ⟨c, hc, (count_flatten_eq_one_iff h.nodup_consumedBy hi hc).2 hothers⟩

namespace SharedCondition

open AddedCondition (scan)

/-- The scan of an index that consumes a condition of its own and one that the others consume as well. -/
def withOwn (own : Int) : Scan := (Change.condition ⟨9⟩).apply ((Change.condition ⟨own⟩).apply scan)

/-- The intersection of two such scans. -/
def two : Scan := (intersect? (withOwn 1) (withOwn 2) 1 {}).toOption.elim scan (·.1)

/-- The intersection of it with a third one. -/
def three : Scan := (intersect? two (withOwn 3) 1 {}).toOption.elim scan (·.1)

/-- The scans with a condition of their own are built. -/
theorem built_withOwn (own : Int) : Built (fun _ _ => True) (withOwn own) :=
  .change _ (.change _ (.ofIndex _ _ _ _ _ _) trivial) trivial

/-- The scan with three leaves is built. -/
theorem built_three : Built (fun _ _ => True) three :=
  .intersect 1 {} (.intersect 1 {} (built_withOwn 1) (built_withOwn 2) rfl) (built_withOwn 3) rfl

end SharedCondition

open SharedCondition in
/-- Three indexes that share a condition are useful together, as each of them has another one. -/
theorem consumes_alone_of_shared_condition :
    three.consumedBy = [[⟨1⟩, ⟨9⟩], [⟨2⟩, ⟨9⟩], [⟨3⟩, ⟨9⟩]] ∧
      ∀ (i : Nat) (cs : List ConditionId), three.consumedBy[i]? = some cs →
        ∃ c ∈ cs, ∀ (j : Nat) (other : List ConditionId), j ≠ i → three.consumedBy[j]? = some other → c ∉ other :=
  ⟨by decide +kernel, (isUseful_iff_of_built built_three).1 (by decide +kernel)⟩

end Scan

end ClusterPlan
