import ClusterPlan.Proofs.Scan.RowOrder

/-!
# What becomes of the targets of an ORDER BY

Going through the targets from left to right, a target consumes the next free column or is absorbed by a column that equalities
fix (`Scan.fates`). The flags for reading backwards that are set on the way, and then carried over to the columns in front of
and behind the consumed ones, say no more than that: a scan reports SORTED exactly if no target is missed and the consumed ones
all go along with their columns or all against them (`order_and_reverse_of_fates`).
-/

namespace ClusterPlan.Scan

/-- What becomes of a target: it consumes a column, along with its direction or against it, or is absorbed, or is missed. -/
inductive Fate where
  | along
  | against
  | absorbed
  | missed
deriving DecidableEq

/-- For a target that consumes a column, whether it goes against it. -/
def Fate.against? : Fate → Option Bool
  | along => some false
  | against => some true
  | absorbed | missed => none

/-- What becomes of the targets, from left to right: a target consumes the next free column if it is the same expression, and
otherwise is absorbed if it is the same as a fixed column. -/
def fates (fixed : List (Expr × Bool)) : List (Expr × Bool) → List (Expr × Bool) → List Fate
  | _, [] => []
  | free, target :: targets =>
    match free.head?.filter fun column => column.1.same target.1 with
    | some column => (if column.2 = target.2 then .along else .against) :: fates fixed free.tail targets
    | none => (if hasColumn fixed target.1 then .absorbed else .missed) :: fates fixed free targets

section Fates

variable {fixed free targets : List (Expr × Bool)} {column target : Expr × Bool}

/-- A target that is the next free column is consumed, along it or against it. -/
theorem fates_of_same (h : column.1.same target.1 = true) :
    fates fixed (column :: free) (target :: targets) =
      (if column.2 = target.2 then .along else .against) :: fates fixed free targets := by
  rw [fates, List.head?_cons, Option.filter_some, if_pos h]
  rfl

/-- A target that is not the next free column is absorbed if it is fixed, and missed else. -/
theorem fates_of_not_same (h : ∀ column ∈ free.head?, ¬column.1.same target.1 = true) :
    fates fixed free (target :: targets) =
      (if hasColumn fixed target.1 then .absorbed else .missed) :: fates fixed free targets := by
  rw [fates, Option.filter_eq_none_iff.2 h]

end Fates

/-- For the targets that consume columns, whether they go against them, if no target is missed. -/
def taken? (fates : List Fate) : Option (List Bool) :=
  if .missed ∈ fates then none else some (fates.filterMap Fate.against?)

/-- With a missed target not all are taken. -/
theorem taken?_missed (fates : List Fate) : taken? (.missed :: fates) = none := by
  rw [taken?, if_pos List.mem_cons_self]

/-- An absorbed target takes no column. -/
theorem taken?_absorbed (fates : List Fate) : taken? (.absorbed :: fates) = taken? fates := by
  rw [taken?, taken?, List.filterMap_cons_none rfl]
  simp only [List.mem_cons, reduceCtorEq, false_or]

/-- A consumed target takes its column, and remembers whether it goes against it. -/
theorem taken?_consumed (fates : List Fate) {fate : Fate} {flag : Bool} (h : fate.against? = some flag) :
    taken? (fate :: fates) = (taken? fates).map (flag :: ·) := by
  cases fate with
  | along | against =>
    cases h
    by_cases hmissed : .missed ∈ fates <;> simp [taken?, hmissed, Fate.against?]
  | absorbed | missed => cases h

/-- The columns that are taken are those that targets consume, unless a target is missed. -/
theorem takeTargets_eq (fixed free targets : List (Expr × Bool)) :
    takeTargets fixed free targets = taken? (fates fixed free targets) := by
  fun_induction takeTargets fixed free targets with
  | case1 free => rfl
  | case2 target ascending targets hf ih => rw [fates_of_not_same (by simp), if_pos hf, taken?_absorbed, ih]
  | case3 target ascending targets hf => rw [fates_of_not_same (by simp), if_neg hf, taken?_missed]
  | case4 column free target ascending targets hs ih =>
    have hflag : (if column.2 = ascending then Fate.along else .against).against? = some (column.2 != ascending) := by
      split <;> simp_all [Fate.against?]
    rw [fates_of_same hs, taken?_consumed _ hflag, ih]
  | case5 column free target ascending targets hs hf ih =>
    rw [fates_of_not_same (by simpa using hs), if_pos hf, taken?_absorbed, ih]
  | case6 column free target ascending targets hs hf =>
    rw [fates_of_not_same (by simpa using hs), if_neg hf, taken?_missed]

/-! ## The flags for reading backwards -/

section Reversals

variable (fixed free : Nat)

/-- Where columns are consumed, the flags of all columns are among those of the consumed ones. -/
theorem mem_reversals {taken : List Bool} {flag : Bool} (h : taken ≠ []) :
    flag ∈ reversals fixed free taken ↔ flag ∈ taken := by
  obtain ⟨first, rest, rfl⟩ := List.exists_cons_of_ne_nil h
  have hlast : (first :: rest).getLast?.getD false ∈ first :: rest := by
    rw [List.getLast?_eq_some_getLast h, Option.getD_some]
    exact List.getLast_mem h
  simp only [reversals, List.cons_append, List.head?_cons, Option.getD_some]
  rw [List.mem_append, ← List.cons_append, List.mem_append]
  constructor
  · rintro (hfixed | hconsumed | hrest)
    · rw [List.eq_of_mem_replicate hfixed]
      exact List.mem_cons_self
    · exact hconsumed
    · rwa [List.eq_of_mem_replicate hrest]
  · exact fun hconsumed => Or.inr (Or.inl hconsumed)

/-- Where no column is consumed, no flag is set. -/
theorem eq_false_of_mem_reversals_nil {flag : Bool} (h : flag ∈ reversals fixed free []) : flag = false := by
  simp only [reversals, List.getLast?_nil, Option.getD_none, List.nil_append, List.mem_append] at h
  rcases h with hfixed | hrest
  · rw [List.eq_of_mem_replicate hfixed]
    cases hhead : (List.replicate (free - List.length []) false).head? with
    | none => rfl
    | some first => exact List.eq_of_mem_replicate (List.mem_of_head? hhead)
  · exact List.eq_of_mem_replicate hrest

/-- Some column has to be reversed exactly if one was taken against its direction. -/
theorem any_reversals (taken : List Bool) : (reversals fixed free taken).any (·) = true ↔ true ∈ taken := by
  rw [List.any_eq_true]
  cases taken with
  | nil =>
    refine ⟨fun ⟨flag, hflag, hset⟩ => ?_, nofun⟩
    rw [eq_false_of_mem_reversals_nil fixed free hflag] at hset
    cases hset
  | cons first rest =>
    simp only [mem_reversals fixed free (List.cons_ne_nil first rest), exists_eq_right]

/-- If one column has to be reversed, all have to exactly if none was taken along its direction. -/
theorem all_reversals {taken : List Bool} (h : true ∈ taken) : (reversals fixed free taken).all (·) = true ↔ false ∉ taken := by
  simp only [List.all_eq_true, mem_reversals fixed free (List.ne_nil_of_mem h)]
  constructor
  · exact fun hall hmem => absurd (hall false hmem) Bool.false_ne_true
  · exact fun hnone flag hflag => (Bool.eq_false_or_eq_true flag).resolve_right fun heq => hnone (heq ▸ hflag)

end Reversals

/-! ## The order of the rows -/

/-- Whether a target goes along with a column or against one is said by whether a consumed column is read so. -/
theorem mem_filterMap_against? {fates : List Fate} {flag : Bool} :
    flag ∈ fates.filterMap Fate.against? ↔ (if flag then Fate.against else .along) ∈ fates := by
  rw [List.mem_filterMap]
  constructor
  · rintro ⟨fate, hfate, hflag⟩
    cases fate <;> cases hflag <;> exact hfate
  · intro h
    exact ⟨_, h, by cases flag <;> rfl⟩

variable (s : Scan) (targets : List (Expr × Bool))

/-- What becomes of targets on the columns of a scan. -/
def fatesOf : List Fate := fates s.fixedColumns s.freeColumns targets

/-- The rows have the order of targets of which none is missed and which do not go both along with columns and against them.
They are read backwards if a target goes against its column. -/
theorem sortedBackwards?_eq {found : List Fate} (h : s.fatesOf targets = found) :
    s.sortedBackwards? targets =
      if .missed ∉ found ∧ (.along ∉ found ∨ .against ∉ found) then some (decide (.against ∈ found)) else none := by
  rw [fatesOf] at h
  rw [sortedBackwards?, takeTargets_eq, h, taken?]
  by_cases hmissed : .missed ∈ found
  · simp only [hmissed, if_true, not_true, false_and, if_false]
  have hany := any_reversals s.fixedColumns.length s.freeColumns.length (found.filterMap Fate.against?)
  rw [mem_filterMap_against?, if_pos rfl] at hany
  by_cases hagainst : .against ∈ found
  · have hmem : true ∈ found.filterMap Fate.against? := mem_filterMap_against?.2 hagainst
    have hall := all_reversals s.fixedColumns.length s.freeColumns.length hmem
    rw [mem_filterMap_against?, if_neg Bool.false_ne_true] at hall
    simp only [hmissed, if_false, hany.2 hagainst, Bool.not_true, hall, hagainst, not_true, or_false, not_false_eq_true, true_and,
      decide_true, Bool.false_eq_true]
  · have hnone := Bool.eq_false_iff.2 (mt hany.1 hagainst)
    simp only [hmissed, if_false, hnone, Bool.not_false, if_true, hagainst, not_false_eq_true, or_true, true_and, decide_false]

/-- How far rows are grouped is never that they are sorted. -/
theorem grouping_ne_sorted (es : List Expr) : s.grouping es ≠ .sorted := by
  rw [grouping]
  split
  · nofun
  · split <;> nofun

/-- The rows of a scan are sorted by targets exactly if each of them consumes a column or is absorbed and those that consume
columns all go along with them or all against them. The scan runs backwards for it exactly if there are some that consume
columns and these all go against them. Otherwise it is as for grouping by the same expressions, and does not run backwards. -/
theorem order_and_reverse_of_fates :
    ((s.withOrder (.orderBy targets)).head.order = .sorted ↔
        .missed ∉ s.fatesOf targets ∧ (.along ∉ s.fatesOf targets ∨ .against ∉ s.fatesOf targets)) ∧
      ((s.withOrder (.orderBy targets)).head.reverse = true ↔
        .missed ∉ s.fatesOf targets ∧ .against ∈ s.fatesOf targets ∧ .along ∉ s.fatesOf targets) ∧
      ((s.withOrder (.orderBy targets)).head.order = .sorted ∨
        s.withOrder (.orderBy targets) = s.withOrder (.groupBy (targets.map (·.1))) ∧
          (s.withOrder (.orderBy targets)).head.reverse = false) := by
  generalize hfound : s.fatesOf targets = found
  have hbackwards := s.sortedBackwards?_eq targets hfound
  by_cases hsorted : .missed ∉ found ∧ (.along ∉ found ∨ .against ∉ found)
  -- The scan runs backwards if any target goes against its column, as then none goes along with one.
  · rw [if_pos hsorted] at hbackwards
    have heffect : s.effectiveness (.orderBy targets) = (.sorted, decide (.against ∈ found)) := by
      simp only [effectiveness, hbackwards]
    have horder : (s.withOrder (.orderBy targets)).head.order = .sorted := by
      rw [order_withOrder, heffect]
    refine ⟨iff_of_true horder hsorted, ?_, Or.inl horder⟩
    rw [reverse_withOrder, heffect, decide_eq_true_eq]
    exact ⟨fun h => ⟨hsorted.1, h, hsorted.2.resolve_right (not_not_intro h)⟩, fun h => h.2.1⟩
  · rw [if_neg hsorted] at hbackwards
    have heffect : s.effectiveness (.orderBy targets) = s.effectiveness (.groupBy (targets.map (·.1))) := by
      simp only [effectiveness, hbackwards]
    have hgrouped : s.withOrder (.orderBy targets) = s.withOrder (.groupBy (targets.map (·.1))) := by
      simp only [withOrder, heffect]
    have horder : (s.withOrder (.orderBy targets)).head.order ≠ .sorted := by
      rw [hgrouped, order_withOrder]
      exact grouping_ne_sorted s _
    have hreverse : (s.withOrder (.orderBy targets)).head.reverse = false := by
      rw [hgrouped, reverse_withOrder]
      rfl
    refine ⟨iff_of_false horder hsorted, ?_, Or.inr ⟨hgrouped, hreverse⟩⟩
    rw [hreverse]
    exact iff_of_false Bool.false_ne_true fun h => hsorted ⟨h.1, Or.inl h.2.2⟩

end ClusterPlan.Scan
