import ClusterPlan.Proofs.Duplication.JoinTags
import ClusterPlan.Proofs.Scan.Building
import ClusterPlan.Scan.Consumption

/-!
# The conditions that scans count

What a scan consumes is said twice: it has a list of conditions, and it counts the conditions of the indexes that it scans. The
list of an intersection is put together from those of its two scans when it is made. A condition that is added to the
intersection later is in the list and is not counted (`not_accounts_of_added_condition`). In all scans that are built the list
repeats nothing and has all that is counted, and it has nothing else exactly if no condition is added to an intersection of
scans without it (`accounts_iff_of_built`).
-/

namespace ClusterPlan

open Duplication

namespace Counts

/-- An increment adds one to its own entry and nothing to others. -/
theorem lookup_bump (c d : ConditionId) (entries : List (ConditionId × Nat)) :
    ((bump c entries).lookup d).getD 0 = (entries.lookup d).getD 0 + if d = c then 1 else 0 := by
  induction entries with
  | nil =>
    rw [bump, lookup_cons_eq_ite]
    split <;> rfl
  | cons entry entries ih =>
    obtain ⟨e, n⟩ := entry
    rw [bump]
    by_cases hce : c = e
    · subst hce
      simp only [if_true, lookup_cons_eq_ite]
      split <;> rfl
    · simp only [if_neg hce, lookup_cons_eq_ite]
      by_cases hd : d = e
      · have hdc : ¬d = c := fun heq => hce (heq.symm.trans hd)
        simp only [if_pos hd, if_neg hdc, Nat.add_zero]
      · simp only [if_neg hd]
        exact ih

/-- A condition is counted once more by its own increment and by no other. -/
theorem count_increment (x : Counts) (c d : ConditionId) : (x.increment c).count d = x.count d + if d = c then 1 else 0 :=
  lookup_bump c d x.entries

/-- Counting a list adds to each condition as often as it stands there. -/
theorem count_foldl_increment (x : Counts) (cs : List ConditionId) (d : ConditionId) :
    (cs.foldl increment x).count d = x.count d + cs.count d := by
  induction cs generalizing x with
  | nil => rfl
  | cons c cs ih =>
    rw [List.foldl_cons, ih, count_increment, List.count_cons]
    by_cases hd : d = c
    · simp [hd, Nat.add_assoc, Nat.add_comm]
    · have hne : (c == d) = false := beq_false_of_ne (Ne.symm hd)
      simp [hd, hne]

end Counts

/-- A count is not none exactly if it is positive. -/
theorem HowMany.ofCount_ne_none_iff (n : Nat) : ofCount n ≠ none ↔ 0 < n := by
  match n with
  | 0 => simp [ofCount]
  | 1 => simp [ofCount]
  | n + 2 => simp [ofCount]

namespace Scan

section AppendNew

variable {α : Type} [DecidableEq α] {xs ys : List α} {z : α}

/-- What was appended is there with what was there. -/
theorem mem_appendNew : z ∈ appendNew xs ys ↔ z ∈ xs ∨ z ∈ ys := by
  unfold appendNew
  induction ys generalizing xs with
  | nil => simp
  | cons y ys ih =>
    rw [List.foldl_cons, ih, List.mem_cons]
    split
    · rename_i hy
      constructor
      · exact Or.imp_right Or.inr
      · rintro (hz | rfl | hz)
        · exact Or.inl hz
        · exact Or.inl hy
        · exact Or.inr hz
    · rw [List.mem_append, List.mem_singleton, or_assoc]

/-- What is there already is not appended again. -/
theorem nodup_appendNew (h : xs.Nodup) : (appendNew xs ys).Nodup := by
  unfold appendNew
  induction ys generalizing xs with
  | nil => exact h
  | cons y ys ih =>
    rw [List.foldl_cons]
    refine ih ?_
    split
    · exact h
    · rename_i hy
      exact List.nodup_append.2 ⟨h, List.nodup_singleton y, fun a ha b hb heq => hy (List.mem_singleton.1 hb ▸ heq ▸ ha)⟩

end AppendNew

/-! ## What is counted -/

/-- The conditions of the indexes that are scanned, with repetitions. -/
def consumed : Scan → List ConditionId
  | single head _ => head.conditions
  | intersect _ _ output selector => output.consumed ++ selector.consumed

/-- The conditions of the indexes that are scanned, index by index. -/
def consumedBy : Scan → List (List ConditionId)
  | single head _ => [head.conditions]
  | intersect _ _ output selector => output.consumedBy ++ selector.consumedBy

/-- What the leaves consume, one after the other, is what the scan consumes. -/
theorem flatten_consumedBy (s : Scan) : s.consumedBy.flatten = s.consumed := by
  induction s using Scan.inductionOn with
  | single head x => exact List.append_nil _
  | intersect head n output selector iho ihs => rw [consumedBy, List.flatten_append, iho, ihs, consumed]

/-- A scan counts each condition as often as its indexes consume it. -/
theorem count_countConditions (s : Scan) (counts : Counts) (c : ConditionId) :
    (s.countConditions counts).count c = counts.count c + s.consumed.count c := by
  induction s using Scan.inductionOn generalizing counts with
  | single head x => exact Counts.count_foldl_increment counts head.conditions c
  | intersect head n output selector iho ihs =>
    rw [countConditions, ihs, iho, consumed, List.count_append, Nat.add_assoc]

/-- A condition is counted exactly if one of the leaves consumes it. -/
theorem howMany_ne_none_iff {s : Scan} {c : ConditionId} : (s.countConditions {}).howMany c ≠ .none ↔ c ∈ s.consumed := by
  have hempty : ({} : Counts).count c = 0 := rfl
  rw [Counts.howMany, HowMany.ofCount_ne_none_iff, count_countConditions, hempty, Nat.zero_add, List.count_pos_iff]

/-- The list of conditions of a scan repeats nothing and has exactly the conditions that the scan counts. -/
structure Accounts (s : Scan) : Prop where
  nodup : s.head.conditions.Nodup
  counted : ∀ c, (s.countConditions {}).howMany c ≠ .none ↔ c ∈ s.head.conditions

/-- The list of conditions of a scan repeats nothing and has all the conditions that the scan counts. -/
structure ListsCounted (s : Scan) : Prop where
  nodup : s.head.conditions.Nodup
  listed : ∀ c ∈ s.consumed, c ∈ s.head.conditions

/-- A scan accounts for its conditions exactly if it lists what is counted and counts what it lists. -/
theorem accounts_iff {s : Scan} : s.Accounts ↔ s.ListsCounted ∧ ∀ c ∈ s.head.conditions, c ∈ s.consumed := by
  constructor
  · intro h
    exact ⟨⟨h.nodup, fun c hc => (h.counted c).1 (howMany_ne_none_iff.2 hc)⟩,
      fun c hc => howMany_ne_none_iff.1 ((h.counted c).2 hc)⟩
  · rintro ⟨h, hall⟩
    exact ⟨h.nodup, fun c => howMany_ne_none_iff.trans ⟨h.listed c, hall c⟩⟩

/-! ## Setters and intersections -/

/-- A condition that is added to an intersection whose indexes do not consume it. -/
def Change.Hides (c : Change) : Scan → Prop
  | .single _ _ => False
  | .intersect head n output selector => ∃ d ∈ c.conditions, d ∉ (Scan.intersect head n output selector).consumed

/-- Including the unions changes nothing about what is consumed. -/
theorem consumed_setIncludeUnion (include? : Bool) (s : Scan) : (s.setIncludeUnion include?).consumed = s.consumed := by
  induction s using Scan.inductionOn with
  | single head x => rfl
  | intersect head n output selector iho ihs => rw [setIncludeUnion, consumed, iho, ihs, consumed]

/-- What a setter of an intersection leaves as it is and what it adds. -/
theorem Change.conditions_apply_intersect (c : Change) (head : ScanHead) (n : Nat) (output selector : Scan) :
    (c.apply (.intersect head n output selector)).consumed = (Scan.intersect head n output selector).consumed ∧
      (c.apply (.intersect head n output selector)).head.conditions = appendNew head.conditions c.conditions := by
  rcases c.apply_intersect head n output selector with ⟨include?, rfl, -⟩ | ⟨head', -, heq, hconditions⟩
  · exact ⟨consumed_setIncludeUnion include? (.intersect head n output selector), rfl⟩
  · rw [heq]
    exact ⟨rfl, hconditions⟩

/-- No change takes a condition from the list that is counted below. -/
theorem ListsCounted.apply {s : Scan} (h : s.ListsCounted) (c : Change) : (c.apply s).ListsCounted := by
  cases s with
  | single head x =>
    obtain ⟨head', x', heq, hconditions⟩ := c.apply_single head x
    rw [heq]
    have hnodup : head'.conditions.Nodup := hconditions ▸ nodup_appendNew h.nodup
    exact ⟨hnodup, fun _ hd => hd⟩
  | intersect head n output selector =>
    obtain ⟨hconsumed, hconditions⟩ := c.conditions_apply_intersect head n output selector
    refine ⟨hconditions ▸ nodup_appendNew h.nodup, fun d hd => ?_⟩
    rw [hconsumed] at hd
    rw [hconditions]
    exact mem_appendNew.2 (Or.inl (h.listed d hd))

/-- A scan still counts its conditions after a setter exactly if the setter hides none. -/
theorem Accounts.apply_iff {s : Scan} (h : s.Accounts) (c : Change) : (c.apply s).Accounts ↔ ¬c.Hides s := by
  obtain ⟨hover, hall⟩ := accounts_iff.1 h
  rw [accounts_iff, and_iff_right (hover.apply c)]
  cases s with
  | single head x =>
    obtain ⟨head', x', heq, -⟩ := c.apply_single head x
    rw [heq]
    exact ⟨fun _ hhides => hhides, fun _ _ hd => hd⟩
  | intersect head n output selector =>
    obtain ⟨hconsumed, hconditions⟩ := c.conditions_apply_intersect head n output selector
    simp only [hconsumed, hconditions, mem_appendNew, Change.Hides, not_exists, not_and, not_not]
    constructor
    · exact fun hnew d hd => hnew d (Or.inr hd)
    · rintro hnew d (hd | hd)
      · exact hall d hd
      · exact hnew d hd

section Intersections

variable {output selector s : Scan} {columns : Nat} {supply supply' : Supply}

/-- An intersection lists the conditions of both branches. -/
theorem ListsCounted.intersect? (ho : output.ListsCounted) (hs : selector.ListsCounted)
    (h : intersect? output selector columns supply = .ok (s, supply')) : s.ListsCounted := by
  obtain ⟨-, head, rfl, hconditions⟩ := intersect?_ok h
  refine ⟨?_, fun c hc => ?_⟩
  · rw [Scan.head, hconditions]
    exact nodup_appendNew ho.nodup
  · rw [Scan.head, hconditions, mem_appendNew]
    exact (List.mem_append.1 hc).imp (ho.listed c) (hs.listed c)

/-- An intersection accounts for its conditions as long as both branches do. -/
theorem Accounts.intersect? (ho : output.Accounts) (hs : selector.Accounts)
    (h : intersect? output selector columns supply = .ok (s, supply')) : s.Accounts := by
  obtain ⟨hover, hall⟩ := accounts_iff.1 ho
  obtain ⟨hover', hall'⟩ := accounts_iff.1 hs
  refine accounts_iff.2 ⟨hover.intersect? hover' h, ?_⟩
  obtain ⟨-, head, rfl, hconditions⟩ := intersect?_ok h
  intro c hc
  rw [Scan.head, hconditions, mem_appendNew] at hc
  exact List.mem_append.2 (hc.imp (hall c) (hall' c))

end Intersections

/-! ## Copies -/

/-- What a copy lists and what it counts are the copies of what the scan lists and counts. -/
def CopiesConditions (σ : Duplication) (s s' : Scan) : Prop :=
  List.Forall₂ σ.CopiesCondition s.head.conditions s'.head.conditions ∧ List.Forall₂ σ.CopiesCondition s.consumed s'.consumed

/-- In its list and in each of its indexes a copy has the copies of the conditions of the scan. -/
def CopiesEach (σ : Duplication) (s s' : Scan) : Prop :=
  List.Forall₂ σ.CopiesCondition s.head.conditions s'.head.conditions ∧
    List.Forall₂ (List.Forall₂ σ.CopiesCondition) s.consumedBy s'.consumedBy

/-- The conditions of a copied scan stay the copies in later states of the session. -/
theorem CopiesEach.mono {σ σ' : Duplication} {s s' : Scan} (h : CopiesEach σ s s') (hext : σ.Extends σ') :
    CopiesEach σ' s s' :=
  ⟨hext.copiesConditions h.1, h.2.imp fun _ _ hcs => hext.copiesConditions hcs⟩

/-- Where each condition is copied, the lists of conditions are copied in turn. -/
theorem CopiesEach.copiesConditions {σ : Duplication} {s s' : Scan} (h : CopiesEach σ s s') : CopiesConditions σ s s' := by
  refine ⟨h.1, ?_⟩
  rw [← flatten_consumedBy, ← flatten_consumedBy]
  exact List.rel_flatten h.2

/-- The copy of the head of a scan lists the copies of its conditions. -/
theorem visits_copy_head (h : ScanHead) : Visits h.mentions h.copy fun σ h' =>
    List.Forall₂ σ.CopiesCondition h.conditions h'.conditions := by
  refine ((Visits.copyNumber h.id).bind fun _ => (Visits.entity h.rootMost).bind fun _ =>
    (Visits.entity h.leafMost).bind fun _ => (Visits.entities h.tables).bind fun _ =>
    (Visits.copiesConditions h.conditions).andThen (fun _ _ _ hext hcs => hext.copiesConditions hcs)
      fun _ => Visits.pure _).congr ?_ ?_
  · simp [ScanHead.mentions]
  · rintro σ _ ⟨_, -, _, -, _, -, _, -, _, hcs, rfl⟩
    exact hcs

/-- The copy of a scan lists the copies of its conditions in all its branches. -/
theorem visits_copy_conditions (s : Scan) : Visits s.mentions s.copy fun σ s' => CopiesEach σ s s' := by
  induction s using Scan.inductionOn with
  | single head x =>
    obtain ⟨index, withUnions, ascending, ordering, equality, unions, low, high⟩ := x
    rw [Scan.copy_single]
    refine ((Expr.visits_copyAll ordering).bind fun _ => (Expr.visits_copyAll equality).bind fun _ =>
      (Expr.visits_copyRows unions).bind fun _ => (Expr.visits_copyBound low).bind fun _ =>
      (Expr.visits_copyBound high).bind fun _ =>
      (visits_copy_head head).andThen (fun _ _ _ hext hcs => hext.copiesConditions hcs)
        fun _ => Visits.pure _).congr ?_ ?_
    · rw [Scan.mentions, List.append_nil]
    · rintro σ _ ⟨_, -, _, -, _, -, _, -, _, -, _, hcs, rfl⟩
      exact ⟨hcs, .cons hcs .nil⟩
  | intersect head n output selector iho ihs =>
    rw [Scan.copy]
    refine (iho.andThen (fun _ _ _ hext h => h.mono hext) fun _ => ihs.andThen (fun _ _ _ hext h => h.mono hext) fun _ =>
      (visits_copy_head head).andThen (fun _ _ _ hext hcs => hext.copiesConditions hcs)
        fun _ => Visits.pure _).congr ?_ ?_
    · rw [Scan.mentions, List.append_nil]
    · rintro σ _ ⟨_, ho, _, hs, _, hcs, rfl⟩
      exact ⟨hcs, List.rel_append ho.2 hs.2⟩

/-- The conditions of a copy are copies, one by one, of those of the scan, and no two of them share a copy. -/
theorem exists_copiesEach {s : Scan} {ctx : Context} {supply : Supply} {σ : Duplication} (hctx : Reached ctx supply)
    (hσ : Session ctx supply σ) (hhas : ∀ ref, .entity ref ∈ s.mentions → σ.ctx.Has ref.2) :
    ∃ σ' : Duplication, Relator.BiUnique σ'.CopiesCondition ∧ CopiesEach σ' s (s.copy σ).1 := by
  have h := hσ.inSession hctx.wellFormed
  obtain ⟨h', -, hcopies⟩ := visits_copy_conditions s _
    (fun m hm => keepsCall_inSession { ctx, supply } h.wellFormed.closed fun ref href => hhas ref (href ▸ hm)) σ h
  exact ⟨_, h'.biUnique_conditions, hcopies⟩

section Copies

variable {σ : Duplication} {s s' : Scan} (hσ : Relator.BiUnique σ.CopiesCondition) (hc : CopiesConditions σ s s')
include hσ hc

/-- The copy of a scan that lists what is counted does so, too. -/
theorem ListsCounted.copy (h : s.ListsCounted) : s'.ListsCounted := by
  refine ⟨(List.rel_nodup hσ hc.1).1 h.nodup, fun c' hc' => ?_⟩
  obtain ⟨c, hcc⟩ := exists_of_forall₂ hc.2 hc'
  exact (mem_iff_of_forall₂ hσ hc.1 hcc).1 (h.listed c ((mem_iff_of_forall₂ hσ hc.2 hcc).2 hc'))

/-- The copy of a scan that accounts for its conditions does so, too. -/
theorem Accounts.copy (h : s.Accounts) : s'.Accounts := by
  obtain ⟨hover, hall⟩ := accounts_iff.1 h
  refine accounts_iff.2 ⟨hover.copy hσ hc, fun c' hc' => ?_⟩
  obtain ⟨c, hcc⟩ := exists_of_forall₂ hc.1 hc'
  exact (mem_iff_of_forall₂ hσ hc.2 hcc).1 (hall c ((mem_iff_of_forall₂ hσ hc.1 hcc).2 hc'))

end Copies

/-! ## All scans that are built -/

/-- A scan of an index starts without conditions. -/
theorem accounts_ofIndex (ctx : Context) (id : Int) (index : Catalog.Index) (rootMost leafMost : SourceId)
    (ordering : List (Expr × Bool)) : (ofIndex ctx id index rootMost leafMost ordering).Accounts :=
  accounts_iff.2 ⟨⟨List.nodup_nil, fun _ hc => hc⟩, fun _ hc => hc⟩

/-- Every scan that can be built lists what is counted. -/
theorem Built.listsCounted {allowed : Scan → Change → Prop} {s : Scan} (h : Built allowed s) : s.ListsCounted := by
  induction h with
  | ofIndex ctx id index rootMost leafMost ordering =>
    exact (accounts_iff.1 (accounts_ofIndex ctx id index rootMost leafMost ordering)).1
  | change c _ _ ih => exact ih.apply c
  | intersect columns supply _ _ hok iho ihs => exact iho.intersect? ihs hok
  | copy _ hctx hσ hhas ih =>
    obtain ⟨σ', hunique, hcopies⟩ := exists_copiesEach hctx hσ hhas
    exact ih.copy hunique hcopies.copiesConditions

/-- Scans that are built without hiding a condition account for theirs. -/
theorem Built.accounts {allowed : Scan → Change → Prop} (hrule : ∀ s c, Built allowed s → allowed s c → ¬c.Hides s) {s : Scan}
    (h : Built allowed s) : s.Accounts := by
  induction h with
  | ofIndex ctx id index rootMost leafMost ordering => exact accounts_ofIndex ctx id index rootMost leafMost ordering
  | change c hs hc ih => exact (ih.apply_iff c).2 (hrule _ c hs hc)
  | intersect columns supply _ _ hok iho ihs => exact iho.intersect? ihs hok
  | copy _ hctx hσ hhas ih =>
    obtain ⟨σ', hunique, hcopies⟩ := exists_copiesEach hctx hσ hhas
    exact ih.copy hunique hcopies.copiesConditions

namespace AddedCondition

/-- The scan of an index with one column. -/
def scan : Scan :=
  ofIndex (.withConfig {}) 1 ⟨"a", .table, default, [], false⟩ ⟨0⟩ ⟨0⟩ [(.column ⟨.table ⟨0⟩, 0, "a", none⟩, true)]

end AddedCondition

open AddedCondition in
/-- A scan need not count its conditions: one that is added to an intersection is in the list and is not counted. -/
theorem not_accounts_of_added_condition : ¬∀ s, Built (fun _ _ => True) s → s.Accounts := by
  intro h
  have hscan : Built (fun _ _ => True) scan := .ofIndex _ _ _ _ _ _
  have hbuilt := (Built.intersect 1 {} hscan hscan rfl).change (.condition ⟨1⟩) trivial
  have hcounted := ((h _ hbuilt).counted ⟨1⟩).2 (by decide)
  exact absurd hcounted (by decide)

/-- Under every rule on the use of setters, the lists of conditions of all scans that are built repeat nothing and have all
that is counted, and they have exactly what is counted if and only if no setter adds a condition to an intersection of scans
without it. -/
theorem accounts_iff_of_built (allowed : Scan → Change → Prop) :
    (∀ s, Built allowed s →
        s.head.conditions.Nodup ∧ ∀ c, (s.countConditions {}).howMany c ≠ .none → c ∈ s.head.conditions) ∧
      ((∀ s, Built allowed s → s.Accounts) ↔ ∀ s c, Built allowed s → allowed s c → ¬c.Hides s) := by
  refine ⟨fun s hs => ⟨hs.listsCounted.nodup, fun c hc => hs.listsCounted.listed c (howMany_ne_none_iff.1 hc)⟩, ?_,
    fun h s hs => hs.accounts h⟩
  intro h s c hs hc
  exact ((h s hs).apply_iff c).1 (h _ (hs.change c hc))

/-- Where intersections refuse conditions as they refuse comparands, every scan counts its conditions. -/
theorem Built.accounts_of_refused {s : Scan} (h : Built (fun s c => c.conditions = [] ∨ ∃ head x, s = .single head x) s) :
    s.Accounts := by
  refine h.accounts ?_
  rintro s c - (hnone | ⟨head, x, rfl⟩) hhides
  · cases s with
    | single head x => exact hhides
    | intersect head n output selector =>
      obtain ⟨d, hd, -⟩ := hhides
      rw [hnone] at hd
      cases hd
  · exact hhides

end Scan

end ClusterPlan
