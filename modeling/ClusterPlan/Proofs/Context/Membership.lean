import ClusterPlan.Proofs.Context.GroupEdits

/-!
# Members of groups

That a source is in a group is written twice, in the tables of the group and on the source. What is on the source is also in
the tables (`Recorded`). The converse (`Listed`) is lost where a source that is in a group gets into another one: a new group
with it and a new group join write the other group on the source and leave the tables of the first group as they are, while
merging empties them.
-/

namespace ClusterPlan.Context

variable {ctx ctx' : Context} {g : GroupId} {s : SourceId}

/-- The sources that a group lists. -/
def members (ctx : Context) (g : GroupId) : List SourceId := (ctx.groups.get g).tables

/-- The group that is recorded on a source. -/
def groupOf? (ctx : Context) (s : SourceId) : Option GroupId := (ctx.sources.get s).group

/-- A source is in the tables of the group that is recorded on it. -/
def Recorded (ctx : Context) : Prop := ∀ ⦃g : GroupId⦄ ⦃s : SourceId⦄, ctx.groupOf? s = some g → s ∈ ctx.members g

/-- A group is recorded on each source in its tables. -/
def Listed (ctx : Context) : Prop := ∀ ⦃g : GroupId⦄ ⦃s : SourceId⦄, s ∈ ctx.members g → ctx.groupOf? s = some g

/-- The members of a group are the sources that it lists, and none if there is no group. -/
theorem members_eq (ctx : Context) (g : GroupId) : ctx.members g = ((ctx.record? g).map TableGroup.tables).getD [] := by
  rw [members, Arena.get]
  cases h : ctx.groups.get? g with
  | none =>
    have hrecord : ctx.record? g = none := h
    rw [hrecord]
    rfl
  | some y =>
    have hrecord : ctx.record? g = some y := h
    rw [hrecord]
    rfl

/-- The group of a source is the one that is recorded on it. -/
theorem groupOf?_eq (ctx : Context) (s : SourceId) : ctx.groupOf? s = (ctx.record? s).bind TableSource.group := by
  rw [groupOf?, Arena.get]
  cases h : ctx.sources.get? s with
  | none =>
    have hrecord : ctx.record? s = none := h
    rw [hrecord]
    rfl
  | some x =>
    have hrecord : ctx.record? s = some x := h
    rw [hrecord]
    rfl

/-- The members of a group with a record are the sources of that record. -/
theorem members_of_record? {y : TableGroup} (h : ctx.record? g = some y) : ctx.members g = y.tables := by
  rw [members_eq, h]
  rfl

/-- The group of a source with a record is that of the record. -/
theorem groupOf?_of_record? {x : TableSource} (h : ctx.record? s = some x) : ctx.groupOf? s = x.group := by
  rw [groupOf?_eq, h]
  rfl

/-- A source is a member exactly if the group exists and lists it. -/
theorem mem_members_iff : s ∈ ctx.members g ↔ ∃ y : TableGroup, ctx.record? g = some y ∧ s ∈ y.tables := by
  rw [members_eq]
  cases ctx.record? g <;> simp

/-- A source is in a group exactly if it exists and the group is recorded on it. -/
theorem groupOf?_eq_some_iff : ctx.groupOf? s = some g ↔ ∃ x : TableSource, ctx.record? s = some x ∧ x.group = some g := by
  rw [groupOf?_eq, Option.bind_eq_some_iff]

/-- A group with members is in the context. -/
theorem has_of_mem_members (h : s ∈ ctx.members g) : ctx.Has g := by
  obtain ⟨y, hy, -⟩ := mem_members_iff.1 h
  exact has_of_record? hy

/-- Members are in the context. -/
theorem WellFormed.has_member (h : ctx.WellFormed) (hs : s ∈ ctx.members g) : ctx.Has s := by
  obtain ⟨y, hy, hmem⟩ := mem_members_iff.1 hs
  exact h.has_table hy hmem

/-! ## Operations that leave groups alone -/

/-- The same links give the same members. -/
theorem SameLinks.members (h : ctx.SameLinks ctx') (g : GroupId) : ctx'.members g = ctx.members g := by
  rw [members_eq, h.group, ← members_eq]

/-- The same links give the same groups of sources. -/
theorem SameLinks.groupOf? (h : ctx.SameLinks ctx') {s : SourceId} (hs : ctx'.Has s) : ctx'.groupOf? s = ctx.groupOf? s := by
  obtain ⟨x, hx⟩ := exists_record? hs
  rw [groupOf?_of_record? hx]
  rcases h.source s x hx with ⟨y, hy, hgroup, -⟩ | ⟨hnew, hgroup, -⟩
  · rw [groupOf?_of_record? hy, hgroup]
  · rw [hgroup, groupOf?_eq]
    cases hy : ctx.record? s with
    | none => rfl
    | some y => exact absurd (has_of_record? hy) hnew

/-- That recorded groups list their sources is a matter of links. -/
theorem Recorded.of_sameLinks (h : ctx.Recorded) (hs : ctx.SameLinks ctx') : ctx'.Recorded := by
  intro g s hgroup
  obtain ⟨x, hx, -⟩ := groupOf?_eq_some_iff.1 hgroup
  rw [hs.groupOf? (has_of_record? hx)] at hgroup
  rw [hs.members]
  exact h hgroup

/-- That listed sources have their group recorded is a matter of links. -/
theorem Listed.of_sameLinks (h : ctx.Listed) (hwf : ctx'.WellFormed) (hs : ctx.SameLinks ctx') : ctx'.Listed := by
  intro g s hmem
  rw [hs.groupOf? (hwf.has_member hmem)]
  rw [hs.members] at hmem
  exact h hmem

/-! ## A new group -/

section AddGroup

variable {first : SourceId}

/-- A new group has its first source as its only member; the others keep theirs, the old group of the source included. -/
theorem members_addGroup (ctx : Context) (first : SourceId) (g : GroupId) :
    (ctx.addGroup first).2.members g = if g = (ctx.addGroup first).1 then [first] else ctx.members g := by
  rw [members_eq, record?_group_addGroup, members_eq]
  split <;> rfl

/-- A new group is recorded on its first source, the others keep theirs. -/
theorem groupOf?_addGroup (hf : ctx.Has first) (s : SourceId) :
    (ctx.addGroup first).2.groupOf? s = if s = first then some (ctx.addGroup first).1 else ctx.groupOf? s := by
  rw [groupOf?_eq, record?_source_addGroup, groupOf?_eq]
  split
  · rename_i hs
    obtain ⟨x, hx⟩ := exists_record? hf
    rw [hs, hx]
    rfl
  · simp only [Option.map_id']

/-- A new group lists the source that it is recorded on. -/
theorem Recorded.addGroup (h : ctx.Recorded) (hf : ctx.Has first) : (ctx.addGroup first).2.Recorded := by
  intro g s hgroup
  rw [groupOf?_addGroup hf] at hgroup
  rw [members_addGroup]
  split at hgroup
  · rename_i hs
    rw [if_pos (Option.some.inj hgroup).symm, hs]
    exact List.mem_singleton_self first
  · have hmem := h hgroup
    have hne : g ≠ (ctx.addGroup first).1 := fun heq => not_has_addGroup ctx first (heq ▸ has_of_mem_members hmem)
    rw [if_neg hne]
    exact hmem

/-- A new group leaves the tables of other groups right exactly if its source was in no group. -/
theorem Listed.addGroup_iff (h : ctx.Listed) (hr : ctx.Recorded) (hf : ctx.Has first) :
    (ctx.addGroup first).2.Listed ↔ ctx.groupOf? first = none := by
  constructor
  · intro h'
    by_contra hsome
    obtain ⟨g, hg⟩ := Option.ne_none_iff_exists'.1 hsome
    have hmem := hr hg
    have hne : g ≠ (ctx.addGroup first).1 := fun heq => not_has_addGroup ctx first (heq ▸ has_of_mem_members hmem)
    have hgroup : (ctx.addGroup first).2.groupOf? first = some g := h' (by rwa [members_addGroup, if_neg hne])
    rw [groupOf?_addGroup hf, if_pos rfl] at hgroup
    exact hne (Option.some.inj hgroup).symm
  · intro hnone g s hmem
    rw [members_addGroup] at hmem
    rw [groupOf?_addGroup hf]
    split at hmem
    · rename_i hg
      rw [if_pos (List.mem_singleton.1 hmem), hg]
    · have hgroup := h hmem
      have hne : s ≠ first := by
        rintro rfl
        rw [hnone] at hgroup
        cases hgroup
      rw [if_neg hne]
      exact hgroup

end AddGroup

/-! ## A new group join -/

section AddGroupJoin

variable {group : GroupId} {parent child : SourceId} {conditions : List ConditionId} {join : Catalog.Join} {id : GroupJoinId}

/-- An added join makes both its sources members of its group. -/
theorem mem_members_addGroupJoin (hok : ctx.addGroupJoin group parent child conditions join = .ok (id, ctx'))
    (hg : ctx.Has group) : s ∈ ctx'.members g ↔ s ∈ ctx.members g ∨ g = group ∧ (s = parent ∨ s = child) := by
  rw [members_eq, record?_group_addGroupJoin hok, members_eq]
  by_cases hgg : g = group
  · obtain ⟨y, hy⟩ := exists_record? hg
    rw [hgg, hy]
    simp [TableGroup.mem_addTable, or_assoc]
  · simp [hgg]

/-- An added join is in a group that is recorded on both its sources. -/
theorem groupOf?_addGroupJoin (hok : ctx.addGroupJoin group parent child conditions join = .ok (id, ctx'))
    (hp : ctx.Has parent) (hc : ctx.Has child) (s : SourceId) :
    ctx'.groupOf? s = if s = parent ∨ s = child then some group else ctx.groupOf? s := by
  rw [groupOf?_eq, record?_source_addGroupJoin hok, groupOf?_eq]
  by_cases hs : s = parent ∨ s = child
  · have hhas : ctx.Has s := by
      rcases hs with rfl | rfl
      · exact hp
      · exact hc
    obtain ⟨x, hx⟩ := exists_record? hhas
    simp only [if_pos hs, hx, Option.map_some, Option.bind_some]
  · simp only [if_neg hs]
    cases ctx.record? s <;> rfl

/-- The group of an added join lists both sources that it is recorded on. -/
theorem Recorded.addGroupJoin (h : ctx.Recorded) (hg : ctx.Has group) (hp : ctx.Has parent) (hc : ctx.Has child)
    (hok : ctx.addGroupJoin group parent child conditions join = .ok (id, ctx')) : ctx'.Recorded := by
  intro g s hgroup
  rw [groupOf?_addGroupJoin hok hp hc] at hgroup
  rw [mem_members_addGroupJoin hok hg]
  split at hgroup
  · rename_i hs
    exact Or.inr ⟨(Option.some.inj hgroup).symm, hs⟩
  · exact Or.inl (h hgroup)

/-- A new group join leaves the tables of other groups right exactly if its sources were in no other group. -/
theorem Listed.addGroupJoin_iff (h : ctx.Listed) (hr : ctx.Recorded) (hg : ctx.Has group) (hp : ctx.Has parent)
    (hc : ctx.Has child) (hok : ctx.addGroupJoin group parent child conditions join = .ok (id, ctx')) :
    ctx'.Listed ↔ ∀ s ∈ [parent, child], ∀ g ∈ ctx.groupOf? s, g = group := by
  have hends : ∀ s, s ∈ [parent, child] ↔ s = parent ∨ s = child := by simp
  constructor
  · intro h' s hs g hgs
    have hgroup := h' ((mem_members_addGroupJoin hok hg).2 (Or.inl (hr hgs)))
    rw [groupOf?_addGroupJoin hok hp hc, if_pos ((hends s).1 hs)] at hgroup
    exact (Option.some.inj hgroup).symm
  · intro hall g s hmem
    rw [groupOf?_addGroupJoin hok hp hc]
    rcases (mem_members_addGroupJoin hok hg).1 hmem with hmem | ⟨rfl, hs⟩
    · have hgroup := h hmem
      split
      · rename_i hs
        rw [hall s ((hends s).2 hs) g hgroup]
      · exact hgroup
    · rw [if_pos hs]

end AddGroupJoin

/-! ## A rejected group join -/

section RejectGroupJoin

variable {id : GroupJoinId}

/-- A rejection takes no member away. -/
theorem members_rejectGroupJoin (hid : ctx.Has id) (g : GroupId) : (ctx.rejectGroupJoin id).members g = ctx.members g := by
  obtain ⟨j, hj⟩ := exists_record? hid
  cases hr : j.rejected with
  | true => rw [rejectGroupJoin_of_rejected hj hr]
  | false =>
    rw [members_eq, record?_group_rejectGroupJoin hj hr, members_eq, Option.map_map]
    congr 2
    funext y
    dsimp only [Function.comp_apply]
    split <;> rfl

/-- A rejection leaves the sources in their groups. -/
theorem groupOf?_rejectGroupJoin (hid : ctx.Has id) (s : SourceId) : (ctx.rejectGroupJoin id).groupOf? s = ctx.groupOf? s := by
  obtain ⟨j, hj⟩ := exists_record? hid
  cases hr : j.rejected with
  | true => rw [rejectGroupJoin_of_rejected hj hr]
  | false =>
    rw [groupOf?_eq, record?_source_rejectGroupJoin hj hr, groupOf?_eq]
    cases ctx.record? s with
    | none => rfl
    | some x =>
      simp only [Option.map_some, Option.bind_some]
      split <;> rfl

/-- A rejection keeps recorded groups listing their sources. -/
theorem Recorded.rejectGroupJoin (h : ctx.Recorded) (hid : ctx.Has id) : (ctx.rejectGroupJoin id).Recorded := by
  intro g s hgroup
  rw [groupOf?_rejectGroupJoin hid] at hgroup
  rw [members_rejectGroupJoin hid]
  exact h hgroup

/-- A rejection keeps listed sources in their groups. -/
theorem Listed.rejectGroupJoin (h : ctx.Listed) (hid : ctx.Has id) : (ctx.rejectGroupJoin id).Listed := by
  intro g s hmem
  rw [members_rejectGroupJoin hid] at hmem
  rw [groupOf?_rejectGroupJoin hid]
  exact h hmem

end RejectGroupJoin

/-! ## Merged groups -/

section MergeGroups

variable {into other : GroupId}

/-- Merging hands the members of one group to the other, and leaves the first without any. -/
theorem mem_members_mergeGroups (hi : ctx.Has into) (ho : ctx.Has other) (hne : into ≠ other) :
    s ∈ (ctx.mergeGroups into other).members g ↔
      (g = into ∧ s ∈ ctx.members other) ∨ g ≠ other ∧ s ∈ ctx.members g := by
  obtain ⟨g₀, hg₀⟩ := exists_record? ho
  obtain ⟨y, hy⟩ := exists_record? hi
  rw [members_eq, record?_group_mergeGroups hg₀ hne, members_of_record? hg₀]
  by_cases hgi : g = into
  · subst hgi
    rw [members_of_record? hy, hy]
    simp [TableGroup.mem_addTables, hne, or_comm]
  · by_cases hgo : g = other
    · subst hgo
      rw [hg₀]
      simp [hgi]
    · rw [members_eq]
      simp [hgi, hgo]

/-- After merging the moved members are in the group that took them over, the other sources where they were. -/
theorem groupOf?_mergeGroups (hwf : ctx.WellFormed) (ho : ctx.Has other) (hne : into ≠ other) (s : SourceId) :
    (ctx.mergeGroups into other).groupOf? s = if s ∈ ctx.members other then some into else ctx.groupOf? s := by
  obtain ⟨g₀, hg₀⟩ := exists_record? ho
  rw [groupOf?_eq, record?_source_mergeGroups hg₀ hne, groupOf?_eq, ← members_of_record? hg₀]
  by_cases hs : s ∈ ctx.members other
  · obtain ⟨x, hx⟩ := exists_record? (hwf.has_member hs)
    simp only [if_pos hs, hx, Option.map_some, Option.bind_some]
  · simp only [if_neg hs, Option.map_id']

/-- After merging, the sources on which the surviving group is recorded are listed by it. -/
theorem Recorded.mergeGroups (h : ctx.Recorded) (hwf : ctx.WellFormed) (hi : ctx.Has into) (ho : ctx.Has other) :
    (ctx.mergeGroups into other).Recorded := by
  by_cases hne : into = other
  · rw [hne, mergeGroups_self]
    exact h
  · intro g s hgroup
    rw [groupOf?_mergeGroups hwf ho hne] at hgroup
    rw [mem_members_mergeGroups hi ho hne]
    split at hgroup
    · rename_i hs
      exact Or.inl ⟨(Option.some.inj hgroup).symm, hs⟩
    · rename_i hs
      have hmem := h hgroup
      exact Or.inr ⟨fun heq => hs (heq ▸ hmem), hmem⟩

/-- After merging, the sources that a group lists have it recorded on them. -/
theorem Listed.mergeGroups (h : ctx.Listed) (hwf : ctx.WellFormed) (hi : ctx.Has into) (ho : ctx.Has other) :
    (ctx.mergeGroups into other).Listed := by
  by_cases hne : into = other
  · rw [hne, mergeGroups_self]
    exact h
  · intro g s hmem
    rw [groupOf?_mergeGroups hwf ho hne]
    rcases (mem_members_mergeGroups hi ho hne).1 hmem with ⟨rfl, hs⟩ | ⟨hgo, hs⟩
    · rw [if_pos hs]
    · have hgroup := h hs
      have hnot : s ∉ ctx.members other := by
        intro hs'
        rw [h hs'] at hgroup
        exact hgo (Option.some.inj hgroup).symm
      rw [if_neg hnot]
      exact hgroup

end MergeGroups

end ClusterPlan.Context
