import ClusterPlan.Proofs.Context.GroupEdits

/-!
# Groups and their joins fit together

A group join that is not rejected stands in the list of its group, exactly once, and in no other list; both sources of it are
in the tables of the group. The parent join of a source is a join of the source that is not rejected. Each operation keeps
this (`Grouped`), merging because it moves the joins together with the tables, rejecting because it takes the join out of the
group that the join is in by then.
-/

namespace ClusterPlan.Context

variable {ctx ctx' : Context}

/-- A group join is in a group and not rejected. -/
def JoinIn (ctx : Context) (j : GroupJoinId) (g : GroupId) : Prop :=
  ∃ x : GroupJoin, ctx.record? j = some x ∧ x.rejected = false ∧ x.group = g

/-- A join in a group is in the context. -/
theorem JoinIn.has {j : GroupJoinId} {g : GroupId} (h : ctx.JoinIn j g) : ctx.Has j := by
  obtain ⟨x, hx, -⟩ := h
  exact has_of_record? hx

/-- A join is in one group only. -/
theorem JoinIn.group_unique {j : GroupJoinId} {g g' : GroupId} (h : ctx.JoinIn j g) (h' : ctx.JoinIn j g') : g = g' := by
  obtain ⟨x, hx, -, rfl⟩ := h
  obtain ⟨x', hx', -, rfl⟩ := h'
  rw [hx] at hx'
  cases hx'
  rfl

/-- Groups, group joins and sources refer to each other as they should. -/
structure Grouped (ctx : Context) : Prop where
  /-- A group lists the joins in it that are not rejected, and no others. -/
  listed : ∀ (g : GroupId) y, ctx.record? g = some y → ∀ j : GroupJoinId, j ∈ y.joins ↔ ctx.JoinIn j g
  once : ∀ (g : GroupId) y, ctx.record? g = some y → y.joins.Nodup
  /-- The sources of a join that is not rejected are in its group. -/
  members : ∀ (j : GroupJoinId) x, ctx.record? j = some x → x.rejected = false →
    ∃ y : TableGroup, ctx.record? x.group = some y ∧ x.parent ∈ y.tables ∧ x.child ∈ y.tables
  distinct : ∀ (g : GroupId) y, ctx.record? g = some y → y.tables.Nodup
  /-- The parent join of a source leads up from the source and is not rejected. -/
  parentJoin : ∀ (s : SourceId) x (j : GroupJoinId), ctx.record? s = some x → x.parentJoin = some j →
    ∃ y : GroupJoin, ctx.record? j = some y ∧ y.rejected = false ∧ y.child = s

/-- Without groups there is nothing to check. -/
theorem grouped_withConfig (config : Config) : (withConfig config).Grouped := by
  have hnone : ∀ {kind : EntityKind} (r : Ref kind), (withConfig config).record? r = none := by
    intro kind r
    cases kind <;> rfl
  refine ⟨?_, ?_, ?_, ?_, ?_⟩ <;>
  · intro r x
    rw [hnone]
    intros
    contradiction

/-- Whether groups and joins fit together is a matter of the links between them. -/
theorem Grouped.of_sameLinks (h : ctx.Grouped) (hs : ctx.SameLinks ctx') : ctx'.Grouped := by
  constructor
  case listed =>
    intro g y hy j
    rw [hs.group] at hy
    rw [JoinIn, hs.groupJoin]
    exact h.listed g y hy j
  case once =>
    intro g y hy
    rw [hs.group] at hy
    exact h.once g y hy
  case members =>
    intro j x hx hr
    rw [hs.groupJoin] at hx
    rw [hs.group]
    exact h.members j x hx hr
  case distinct =>
    intro g y hy
    rw [hs.group] at hy
    exact h.distinct g y hy
  case parentJoin =>
    intro s x j hx hj
    rcases hs.source s x hx with ⟨y, hy, -, hjoin⟩ | ⟨-, -, hjoin⟩
    · rw [hs.groupJoin]
      exact h.parentJoin s y j hy (hjoin.symm.trans hj)
    · rw [hjoin] at hj
      cases hj

/-! ## A new group -/

/-- A new group has one source and no joins, and no join is in it. -/
theorem Grouped.addGroup (h : ctx.Grouped) (hwf : ctx.WellFormed) (first : SourceId) : (ctx.addGroup first).2.Grouped := by
  have hnew := not_has_addGroup ctx first
  have hgroup : ∀ (g : GroupId) y, (ctx.addGroup first).2.record? g = some y →
      g = (ctx.addGroup first).1 ∧ y = { tables := [first] } ∨ ctx.record? g = some y := by
    intro g y hy
    rw [record?_group_addGroup] at hy
    split at hy
    · rename_i hg
      cases hy
      exact Or.inl ⟨hg, rfl⟩
    · exact Or.inr hy
  constructor
  case listed =>
    intro g y hy j
    rcases hgroup g y hy with ⟨rfl, rfl⟩ | hy
    · refine ⟨nofun, ?_⟩
      rintro ⟨x, hx, -, hg⟩
      rw [← hg] at hnew
      exact absurd (hwf.has_groupOf hx) hnew
    · exact h.listed g y hy j
  case once =>
    intro g y hy
    rcases hgroup g y hy with ⟨rfl, rfl⟩ | hy
    · exact List.nodup_nil
    · exact h.once g y hy
  case members =>
    intro j x hx hr
    obtain ⟨y, hy, hp, hc⟩ := h.members j x hx hr
    have hne : x.group ≠ (ctx.addGroup first).1 := by
      intro heq
      rw [← heq] at hnew
      exact hnew (has_of_record? hy)
    exact ⟨y, (record?_group_addGroup ctx first _).trans ((if_neg hne).trans hy), hp, hc⟩
  case distinct =>
    intro g y hy
    rcases hgroup g y hy with ⟨rfl, rfl⟩ | hy
    · exact List.nodup_singleton first
    · exact h.distinct g y hy
  case parentJoin =>
    intro s x j hx hj
    rw [record?_source_addGroup] at hx
    obtain ⟨z, hz, rfl⟩ := Option.map_eq_some_iff.1 hx
    refine h.parentJoin s z j hz ?_
    split at hj <;> exact hj

/-! ## A new group join -/

/-- An added join is in its group, and the others are where they were. -/
theorem joinIn_addGroupJoin {group : GroupId} {parent child : SourceId} {conditions : List ConditionId} {join : Catalog.Join}
    {id : GroupJoinId} (hok : ctx.addGroupJoin group parent child conditions join = .ok (id, ctx')) (j : GroupJoinId)
    (g : GroupId) : ctx'.JoinIn j g ↔ ctx.JoinIn j g ∨ j = id ∧ g = group := by
  rw [JoinIn, record?_groupJoin_addGroupJoin hok]
  by_cases hj : j = id
  · subst hj
    have hold : ¬ctx.JoinIn j g := fun hin => not_has_addGroupJoin hok hin.has
    simp only [if_true, Option.some.injEq, exists_eq_left', true_and, hold, false_or]
    exact eq_comm
  · simp [hj, JoinIn]

/-- An added join is listed by its group, which gets both its sources. -/
theorem Grouped.addGroupJoin (h : ctx.Grouped) {group : GroupId} {parent child : SourceId} {conditions : List ConditionId}
    {join : Catalog.Join} {id : GroupJoinId} (hg : ctx.Has group)
    (hok : ctx.addGroupJoin group parent child conditions join = .ok (id, ctx')) : ctx'.Grouped := by
  have hnew := not_has_addGroupJoin hok
  have hgroups := record?_group_addGroupJoin hok
  have hjoins := record?_groupJoin_addGroupJoin hok
  have hsources := record?_source_addGroupJoin hok
  have hne : ∀ {g : GroupId} {y : TableGroup}, ctx.record? g = some y → id ∉ y.joins := by
    intro g y hy hid
    exact hnew ((h.listed g y hy id).1 hid).has
  constructor
  case listed =>
    intro g y' hy' j
    rw [hgroups] at hy'
    obtain ⟨y, hy, rfl⟩ := Option.map_eq_some_iff.1 hy'
    rw [joinIn_addGroupJoin hok, ← h.listed g y hy j]
    by_cases hgg : g = group <;> simp [hgg]
  case once =>
    intro g y' hy'
    rw [hgroups] at hy'
    obtain ⟨y, hy, rfl⟩ := Option.map_eq_some_iff.1 hy'
    dsimp only
    split
    · refine List.nodup_append.2 ⟨h.once g y hy, List.nodup_singleton id, ?_⟩
      rintro a ha b hb rfl
      rw [List.mem_singleton.1 hb] at ha
      exact hne hy ha
    · exact h.once g y hy
  case members =>
    intro j x hx hr
    rw [hjoins] at hx
    rw [hgroups]
    split at hx
    · cases hx
      obtain ⟨y, hy⟩ := exists_record? hg
      rw [hy]
      refine ⟨_, rfl, ?_⟩
      dsimp only
      rw [if_pos rfl]
      simp only [TableGroup.mem_addTable, or_true, true_or, and_self]
    · obtain ⟨y, hy, hp, hc⟩ := h.members j x hx hr
      rw [hy]
      refine ⟨_, rfl, ?_⟩
      dsimp only
      split
      · simp only [TableGroup.mem_addTable]
        exact ⟨Or.inl (Or.inl hp), Or.inl (Or.inl hc)⟩
      · exact ⟨hp, hc⟩
  case distinct =>
    intro g y' hy'
    rw [hgroups] at hy'
    obtain ⟨y, hy, rfl⟩ := Option.map_eq_some_iff.1 hy'
    dsimp only
    split
    · exact TableGroup.nodup_addTable (TableGroup.nodup_addTable (h.distinct g y hy))
    · exact h.distinct g y hy
  case parentJoin =>
    intro s x' j hx' hj
    rw [hsources] at hx'
    obtain ⟨x, hx, rfl⟩ := Option.map_eq_some_iff.1 hx'
    rw [hjoins]
    dsimp only at hj
    split at hj
    · rename_i hs
      cases hj
      exact ⟨_, if_pos rfl, rfl, hs.symm⟩
    · obtain ⟨y, hy, hr, hc⟩ := h.parentJoin s x j hx hj
      have hne : j ≠ id := by
        rintro rfl
        exact hnew (has_of_record? hy)
      exact ⟨y, (if_neg hne).trans hy, hr, hc⟩

/-! ## A rejected group join -/

/-- A rejected join is in no group, and the others are where they were. -/
theorem joinIn_rejectGroupJoin {id : GroupJoinId} {x : GroupJoin} (hx : ctx.record? id = some x) (hr : x.rejected = false)
    (j : GroupJoinId) (g : GroupId) : (ctx.rejectGroupJoin id).JoinIn j g ↔ ctx.JoinIn j g ∧ j ≠ id := by
  rw [JoinIn, record?_groupJoin_rejectGroupJoin hx hr]
  by_cases hj : j = id
  · subst hj
    simp [hx]
  · simp [hj, JoinIn]

/-- A rejected join goes from the list of its group and from its child, and is no longer asked for. -/
theorem Grouped.rejectGroupJoin (h : ctx.Grouped) {id : GroupJoinId} (hid : ctx.Has id) : (ctx.rejectGroupJoin id).Grouped := by
  obtain ⟨j₀, hj₀⟩ := exists_record? hid
  cases hr₀ : j₀.rejected with
  | true =>
    rw [rejectGroupJoin_of_rejected hj₀ hr₀]
    exact h
  | false =>
    have hgroups := record?_group_rejectGroupJoin hj₀ hr₀
    have hjoins := record?_groupJoin_rejectGroupJoin hj₀ hr₀
    have hsources := record?_source_rejectGroupJoin hj₀ hr₀
    constructor
    case listed =>
      intro g y' hy' j
      rw [hgroups] at hy'
      obtain ⟨y, hy, rfl⟩ := Option.map_eq_some_iff.1 hy'
      rw [joinIn_rejectGroupJoin hj₀ hr₀, ← h.listed g y hy j]
      split
      · simp
      · -- The rejected join is in the list of no other group than its own.
        rename_i hg
        refine ⟨fun hj => ⟨hj, ?_⟩, And.left⟩
        rintro rfl
        exact hg (((h.listed g y hy _).1 hj).group_unique ⟨j₀, hj₀, hr₀, rfl⟩)
    case once =>
      intro g y' hy'
      rw [hgroups] at hy'
      obtain ⟨y, hy, rfl⟩ := Option.map_eq_some_iff.1 hy'
      split
      · exact (h.once g y hy).filter _
      · exact h.once g y hy
    case members =>
      intro j x' hx' hr'
      rw [hjoins] at hx'
      obtain ⟨x, hx, rfl⟩ := Option.map_eq_some_iff.1 hx'
      split at hr'
      · cases hr'
      · rename_i hj
        rw [if_neg hj, hgroups]
        obtain ⟨y, hy, hp, hc⟩ := h.members j x hx hr'
        rw [hy]
        refine ⟨_, rfl, ?_⟩
        dsimp only
        split <;> exact ⟨hp, hc⟩
    case distinct =>
      intro g y' hy'
      rw [hgroups] at hy'
      obtain ⟨y, hy, rfl⟩ := Option.map_eq_some_iff.1 hy'
      split <;> exact h.distinct g y hy
    case parentJoin =>
      intro s x' j hx' hj
      rw [hsources] at hx'
      obtain ⟨x, hx, rfl⟩ := Option.map_eq_some_iff.1 hx'
      split at hj
      · cases hj
      · rename_i hs
        obtain ⟨y, hy, hr, hc⟩ := h.parentJoin s x j hx hj
        refine ⟨y, ?_, hr, hc⟩
        rw [hjoins, hy, Option.map_some, if_neg]
        rintro rfl
        rw [hj₀] at hy
        cases hy
        exact hs ⟨hc.symm, hj⟩

/-! ## Merged groups -/

section Merge

variable {into other : GroupId} {g₀ : TableGroup} (h : ctx.Grouped) (hg₀ : ctx.record? other = some g₀) (hne : into ≠ other)

include h hg₀ hne

/-- The joins of the merged group are in the other one, and all others are where they were. -/
theorem Grouped.joinIn_mergeGroups (j : GroupJoinId) (g : GroupId) :
    (ctx.mergeGroups into other).JoinIn j g ↔ if j ∈ g₀.joins then g = into else ctx.JoinIn j g := by
  rw [JoinIn, record?_groupJoin_mergeGroups hg₀ hne]
  split
  · rename_i hj
    obtain ⟨x, hx, hr, -⟩ := (h.listed other g₀ hg₀ j).1 hj
    simp only [hx, Option.map_some, Option.some.injEq, exists_eq_left', hr, true_and]
    exact eq_comm
  · simp [JoinIn]

/-- After merging, a group lists the joins that are in it. -/
theorem Grouped.listed_mergeGroups {g : GroupId} {y' : TableGroup} (hy' : (ctx.mergeGroups into other).record? g = some y')
    (j : GroupJoinId) : j ∈ y'.joins ↔ (ctx.mergeGroups into other).JoinIn j g := by
  rw [record?_group_mergeGroups hg₀ hne] at hy'
  obtain ⟨y, hy, rfl⟩ := Option.map_eq_some_iff.1 hy'
  have hmoved := h.listed other g₀ hg₀ j
  rw [h.joinIn_mergeGroups hg₀ hne, ← h.listed g y hy j]
  by_cases hgi : g = into
  · simp only [if_pos hgi, List.mem_append]
    by_cases hj : j ∈ g₀.joins <;> simp [hj, hgi]
  · by_cases hj : j ∈ g₀.joins
    · -- A join of the merged group is listed by the group that took it over only.
      have hold : g ≠ other → j ∉ y.joins := fun hgo hmem =>
        hgo (((h.listed g y hy j).1 hmem).group_unique (hmoved.1 hj))
      by_cases hgo : g = other
      · simp [hgo, hj, Ne.symm hne]
      · simp [hgi, hgo, hj, hold hgo]
    · by_cases hgo : g = other
      · subst hgo
        rw [hy] at hg₀
        cases hg₀
        simp [hgi, hj]
      · simp [hgi, hgo, hj]

/-- After merging, the sources of a join that is not rejected are in its group: they moved with it, or it stayed with them. -/
theorem Grouped.members_mergeGroups (hi : ctx.Has into) {j : GroupJoinId} {x' : GroupJoin}
    (hx' : (ctx.mergeGroups into other).record? j = some x') (hr' : x'.rejected = false) :
    ∃ y : TableGroup, (ctx.mergeGroups into other).record? x'.group = some y ∧ x'.parent ∈ y.tables ∧ x'.child ∈ y.tables := by
  have hgroups := record?_group_mergeGroups hg₀ hne
  rw [record?_groupJoin_mergeGroups hg₀ hne] at hx'
  obtain ⟨x, hx, rfl⟩ := Option.map_eq_some_iff.1 hx'
  have hr : x.rejected = false := by
    split at hr' <;> exact hr'
  obtain ⟨y, hy, hp, hc⟩ := h.members j x hx hr
  by_cases hj : j ∈ g₀.joins
  · simp only [if_pos hj]
    have hgo : x.group = other := by
      have hjin : ctx.JoinIn j x.group := ⟨x, hx, hr, rfl⟩
      exact hjin.group_unique ((h.listed other g₀ hg₀ j).1 hj)
    rw [hgo, hg₀] at hy
    cases hy
    obtain ⟨z, hz⟩ := exists_record? hi
    rw [hgroups, hz]
    refine ⟨_, rfl, ?_⟩
    simp only [if_true, TableGroup.mem_addTables]
    exact ⟨Or.inr hp, Or.inr hc⟩
  · simp only [if_neg hj]
    have hgo : x.group ≠ other := fun heq => hj ((h.listed other g₀ hg₀ j).2 ⟨x, hx, hr, heq⟩)
    rw [hgroups, hy]
    refine ⟨_, rfl, ?_⟩
    simp only [if_neg hgo]
    split
    · simp only [TableGroup.mem_addTables]
      exact ⟨Or.inl hp, Or.inl hc⟩
    · exact ⟨hp, hc⟩

end Merge

/-- Merging moves the joins together with the sources that they connect. -/
theorem Grouped.mergeGroups (h : ctx.Grouped) {into other : GroupId} (hi : ctx.Has into) (ho : ctx.Has other) :
    (ctx.mergeGroups into other).Grouped := by
  by_cases hne : into = other
  · rw [hne, mergeGroups_self]
    exact h
  · obtain ⟨g₀, hg₀⟩ := exists_record? ho
    have hgroups := record?_group_mergeGroups hg₀ hne
    constructor
    case listed => exact fun g y' hy' j => h.listed_mergeGroups hg₀ hne hy' j
    case once =>
      intro g y' hy'
      rw [hgroups] at hy'
      obtain ⟨y, hy, rfl⟩ := Option.map_eq_some_iff.1 hy'
      dsimp only
      split
      · rename_i hg
        -- a join that both groups listed would be in both of them
        refine List.nodup_append.2 ⟨h.once g y hy, h.once other g₀ hg₀, ?_⟩
        rintro j hj _ hj' rfl
        have hgroup := ((h.listed g y hy j).1 hj).group_unique ((h.listed other g₀ hg₀ j).1 hj')
        exact hne (hg.symm.trans hgroup)
      · split
        · exact List.nodup_nil
        · exact h.once g y hy
    case members => exact fun j x' hx' hr' => h.members_mergeGroups hg₀ hne hi hx' hr'
    case distinct =>
      intro g y' hy'
      rw [hgroups] at hy'
      obtain ⟨y, hy, rfl⟩ := Option.map_eq_some_iff.1 hy'
      dsimp only
      split
      · exact TableGroup.nodup_addTables (h.distinct g y hy)
      · split
        · exact List.nodup_nil
        · exact h.distinct g y hy
    case parentJoin =>
      intro s x' j hx' hj
      rw [record?_source_mergeGroups hg₀ hne] at hx'
      obtain ⟨x, hx, rfl⟩ := Option.map_eq_some_iff.1 hx'
      have hj' : x.parentJoin = some j := by
        split at hj <;> exact hj
      obtain ⟨y, hy, hr, hc⟩ := h.parentJoin s x j hx hj'
      rw [record?_groupJoin_mergeGroups hg₀ hne, hy]
      refine ⟨_, rfl, ?_⟩
      dsimp only
      split <;> exact ⟨hr, hc⟩

end ClusterPlan.Context
