import ClusterPlan.Proofs.Context.Membership

/-!
# Merged groups

A group that was merged into another one points at it (`mergedInto?`) and is meant to be retired: it has no sources and no
joins, and the pointers lead from it to a group that was not merged (`Retires`). No operation refuses a merged group, so this
is lost where a merged group gets a join, takes over a group with sources, or takes over a group that it points at, directly
or through others. All else keeps it.
-/

namespace ClusterPlan.Context

variable {ctx ctx' : Context} {g h : GroupId} {path : List GroupId}

/-- The group that a group was merged into. -/
def mergedInto? (ctx : Context) (g : GroupId) : Option GroupId := (ctx.groups.get g).mergedInto

/-- The joins that a group lists. -/
def joinsIn (ctx : Context) (g : GroupId) : List GroupJoinId := (ctx.groups.get g).joins

/-- The groups that are met from a group on, the last of which was not merged. -/
inductive Forwards (ctx : Context) : GroupId → List GroupId → Prop where
  | live {g : GroupId} : ctx.mergedInto? g = none → Forwards ctx g [g]
  | merged {g h : GroupId} {path : List GroupId} : ctx.mergedInto? g = some h → Forwards ctx h path → Forwards ctx g (g :: path)

/-- Merged groups are empty, and from each group the way to one that was not merged meets no group twice. -/
structure Retires (ctx : Context) : Prop where
  empty : ∀ g, ctx.mergedInto? g ≠ none → ctx.members g = [] ∧ ctx.joinsIn g = []
  ends : ∀ g, ∃ path, ctx.Forwards g path ∧ path.Nodup

/-- Groups that were not merged have sources. -/
def Peopled (ctx : Context) : Prop := ∀ (g : GroupId) y, ctx.record? g = some y → y.mergedInto = none → y.tables ≠ []

theorem groups_get (ctx : Context) (g : GroupId) : ctx.groups.get g = (ctx.record? g).getD default := rfl

/-- What a group was merged into is recorded on it. -/
theorem mergedInto?_eq (ctx : Context) (g : GroupId) : ctx.mergedInto? g = (ctx.record? g).bind TableGroup.mergedInto := by
  rw [mergedInto?, groups_get]
  cases ctx.record? g <;> rfl

/-- The joins that a group lists are those of its record, and none if there is no group. -/
theorem joinsIn_eq (ctx : Context) (g : GroupId) : ctx.joinsIn g = ((ctx.record? g).map TableGroup.joins).getD [] := by
  rw [joinsIn, groups_get]
  cases ctx.record? g <;> rfl

/-- The record of a group says what it was merged into. -/
theorem mergedInto?_of_record? {y : TableGroup} (hy : ctx.record? g = some y) : ctx.mergedInto? g = y.mergedInto := by
  rw [mergedInto?_eq, hy]
  rfl

/-- The record of a group lists its joins. -/
theorem joinsIn_of_record? {y : TableGroup} (hy : ctx.record? g = some y) : ctx.joinsIn g = y.joins := by
  rw [joinsIn_eq, hy]
  rfl

/-- A group that was merged is in the context. -/
theorem has_of_mergedInto? (hg : ctx.mergedInto? g ≠ none) : ctx.Has g := by
  rw [mergedInto?_eq] at hg
  cases hy : ctx.record? g with
  | none =>
    rw [hy] at hg
    exact absurd rfl hg
  | some y => exact has_of_record? hy

theorem WellFormed.has_mergedInto (hwf : ctx.WellFormed) (hg : ctx.mergedInto? g = some h) : ctx.Has h := by
  rw [mergedInto?_eq] at hg
  obtain ⟨y, hy, hsome⟩ := Option.bind_eq_some_iff.1 hg
  exact hwf.closed g y (has_of_record? hy) hy ⟨.group, h⟩ (by simp [EntityKind.references, hsome])

/-! ## Ways to groups that were not merged -/

namespace Forwards

/-- The way forward from a group starts with the group. -/
theorem eq_cons (hg : ctx.Forwards g path) : ∃ rest, path = g :: rest := by
  cases hg with
  | live _ => exact ⟨[], rfl⟩
  | merged _ _ => exact ⟨_, rfl⟩

/-- A group is on the way forward from itself. -/
theorem head_mem (hg : ctx.Forwards g path) : g ∈ path := by
  obtain ⟨rest, rfl⟩ := hg.eq_cons
  exact List.mem_cons_self

/-- There is one way from a group. -/
theorem unique {path' : List GroupId} (hg : ctx.Forwards g path) (hg' : ctx.Forwards g path') : path = path' := by
  induction hg generalizing path' with
  | live hnone =>
    cases hg' with
    | live _ => rfl
    | merged hsome _ => exact absurd hsome (by simp [hnone])
  | merged hsome _ ih =>
    cases hg' with
    | live hnone => exact absurd hsome (by simp [hnone])
    | merged hsome' hg' =>
      rw [hsome] at hsome'
      cases hsome'
      rw [ih hg']

/-- The way from a group that is met is what is left of the way. -/
theorem suffix (hg : ctx.Forwards g path) (hmem : h ∈ path) : ∃ rest, ctx.Forwards h rest ∧ rest <:+ path := by
  induction hg with
  | live hnone =>
    cases List.mem_singleton.1 hmem
    exact ⟨_, .live hnone, List.suffix_refl _⟩
  | @merged g h' path hsome hpath ih =>
    rcases List.mem_cons.1 hmem with rfl | hmem
    · exact ⟨_, .merged hsome hpath, List.suffix_refl _⟩
    · obtain ⟨rest, hrest, hsuffix⟩ := ih hmem
      exact ⟨rest, hrest, hsuffix.trans (List.suffix_cons g path)⟩

/-- A way does not come back to a group that points at where it starts. -/
theorem not_mem_of_link (hsome : ctx.mergedInto? g = some h) (hh : ctx.Forwards h path) : g ∉ path := by
  intro hmem
  obtain ⟨rest, hrest, hsuffix⟩ := hh.suffix hmem
  have hlength := hsuffix.length_le
  rw [hrest.unique (.merged hsome hh)] at hlength
  exact Nat.not_succ_le_self _ hlength

/-- The way forward meets no group twice: a second visit would lead on for ever. -/
theorem nodup (hg : ctx.Forwards g path) : path.Nodup := by
  induction hg with
  | live _ => exact List.nodup_singleton _
  | merged hsome hpath ih => exact List.nodup_cons.2 ⟨not_mem_of_link hsome hpath, ih⟩

/-- The way forward from a group of a well-formed context stays in the context. -/
theorem has (hg : ctx.Forwards g path) (hwf : ctx.WellFormed) (hhas : ctx.Has g) : ∀ h ∈ path, ctx.Has h := by
  induction hg with
  | live _ => exact List.forall_mem_singleton.2 hhas
  | merged hsome _ ih => exact List.forall_mem_cons.2 ⟨hhas, ih (hwf.has_mergedInto hsome)⟩

/-- A way stays as long as the groups that are met keep what they were merged into. -/
theorem congr (hg : ctx.Forwards g path) (hsame : ∀ h ∈ path, ctx'.mergedInto? h = ctx.mergedInto? h) :
    ctx'.Forwards g path := by
  induction hg with
  | live hnone => exact .live ((hsame _ (List.mem_singleton_self _)).trans hnone)
  | merged hsome hpath ih =>
    exact .merged ((hsame _ List.mem_cons_self).trans hsome) (ih fun h hh => hsame h (List.mem_cons_of_mem _ hh))

end Forwards

/-- Groups retire properly exactly if merged ones are empty and each way forward ends. -/
theorem retires_iff : ctx.Retires ↔
    (∀ g, ctx.mergedInto? g ≠ none → ctx.members g = [] ∧ ctx.joinsIn g = []) ∧ ∀ g, ∃ path, ctx.Forwards g path := by
  constructor
  · intro hr
    exact ⟨hr.empty, fun g => (hr.ends g).imp fun _ hpath => hpath.1⟩
  · rintro ⟨hempty, hends⟩
    exact ⟨hempty, fun g => (hends g).imp fun _ hpath => ⟨hpath, hpath.nodup⟩⟩

/-- Merged groups stay retired if no pointer changes and none of them gets sources or joins. -/
theorem Retires.of_same (hr : ctx.Retires) (hm : ∀ g, ctx'.mergedInto? g = ctx.mergedInto? g)
    (he : ∀ g, ctx.mergedInto? g ≠ none → ctx.members g = [] → ctx.joinsIn g = [] → ctx'.members g = [] ∧ ctx'.joinsIn g = []) :
    ctx'.Retires := by
  refine retires_iff.2 ⟨?_, ?_⟩
  · intro g hg
    rw [hm] at hg
    exact he g hg (hr.empty g hg).1 (hr.empty g hg).2
  · intro g
    obtain ⟨path, hpath, -⟩ := hr.ends g
    exact ⟨path, hpath.congr fun h _ => hm h⟩

/-! ## Operations that leave groups alone -/

/-- The same links lead to the same absorbing groups. -/
theorem SameLinks.mergedInto? (hs : ctx.SameLinks ctx') (g : GroupId) : ctx'.mergedInto? g = ctx.mergedInto? g := by
  rw [mergedInto?_eq, hs.group, ← mergedInto?_eq]

/-- The same links give the same lists of joins. -/
theorem SameLinks.joinsIn (hs : ctx.SameLinks ctx') (g : GroupId) : ctx'.joinsIn g = ctx.joinsIn g := by
  rw [joinsIn_eq, hs.group, ← joinsIn_eq]

/-- Whether groups retire properly is a matter of links. -/
theorem Retires.of_sameLinks (hr : ctx.Retires) (hs : ctx.SameLinks ctx') : ctx'.Retires :=
  hr.of_same hs.mergedInto? fun g _ hmembers hjoins => ⟨(hs.members g).trans hmembers, (hs.joinsIn g).trans hjoins⟩

/-- Whether groups have sources is a matter of links. -/
theorem Peopled.of_sameLinks (hp : ctx.Peopled) (hs : ctx.SameLinks ctx') : ctx'.Peopled := by
  intro g y hy hnone
  rw [hs.group] at hy
  exact hp g y hy hnone

/-! ## A new group -/

section AddGroup

variable {first : SourceId}

/-- A new group was not merged into anything, and the others stay as they are. -/
theorem mergedInto?_addGroup (ctx : Context) (first : SourceId) (g : GroupId) :
    (ctx.addGroup first).2.mergedInto? g = ctx.mergedInto? g := by
  rw [mergedInto?_eq, record?_group_addGroup, mergedInto?_eq]
  split
  · rename_i hg
    cases hy : ctx.record? g with
    | none => rfl
    | some y => exact absurd (hg ▸ has_of_record? hy) (not_has_addGroup ctx first)
  · rfl

/-- A new group was not merged, and the ways forward of the others stay. -/
theorem Retires.addGroup (hr : ctx.Retires) (first : SourceId) : (ctx.addGroup first).2.Retires := by
  refine hr.of_same (mergedInto?_addGroup ctx first) fun g hg hmembers hjoins => ?_
  have hne : g ≠ (ctx.addGroup first).1 := fun heq => not_has_addGroup ctx first (heq ▸ has_of_mergedInto? hg)
  have hsame : (ctx.addGroup first).2.record? g = ctx.record? g := by rw [record?_group_addGroup, if_neg hne]
  rw [members_eq, hsame, ← members_eq, joinsIn_eq, hsame, ← joinsIn_eq]
  exact ⟨hmembers, hjoins⟩

/-- A new group has its first source. -/
theorem Peopled.addGroup (hp : ctx.Peopled) (first : SourceId) : (ctx.addGroup first).2.Peopled := by
  intro g y hy hnone
  rw [record?_group_addGroup] at hy
  split at hy
  · cases hy
    simp
  · exact hp g y hy hnone

end AddGroup

/-! ## A new group join -/

section AddGroupJoin

variable {group : GroupId} {parent child : SourceId} {conditions : List ConditionId} {join : Catalog.Join} {id : GroupJoinId}

/-- A new join merges no groups. -/
theorem mergedInto?_addGroupJoin (hok : ctx.addGroupJoin group parent child conditions join = .ok (id, ctx')) (g : GroupId) :
    ctx'.mergedInto? g = ctx.mergedInto? g := by
  rw [mergedInto?_eq, record?_group_addGroupJoin hok, mergedInto?_eq]
  cases ctx.record? g with
  | none => rfl
  | some y =>
    simp only [Option.map_some, Option.bind_some]
    split
    · simp only [TableGroup.mergedInto_addTable]
    · rfl

/-- A new join is listed by its own group only. -/
theorem joinsIn_addGroupJoin (hok : ctx.addGroupJoin group parent child conditions join = .ok (id, ctx')) (hg : g ≠ group) :
    ctx'.joinsIn g = ctx.joinsIn g := by
  rw [joinsIn_eq, record?_group_addGroupJoin hok, joinsIn_eq]
  simp only [if_neg hg, Option.map_id']

/-- Merged groups stay retired under a new group join exactly if the group that gets it was not merged. -/
theorem Retires.addGroupJoin_iff (hr : ctx.Retires) (hg : ctx.Has group)
    (hok : ctx.addGroupJoin group parent child conditions join = .ok (id, ctx')) :
    ctx'.Retires ↔ ctx.mergedInto? group = none := by
  have hparent : parent ∈ ctx'.members group := (mem_members_addGroupJoin hok hg).2 (Or.inr ⟨rfl, Or.inl rfl⟩)
  constructor
  · intro hr'
    by_contra hsome
    rw [← mergedInto?_addGroupJoin hok] at hsome
    rw [(hr'.empty group hsome).1] at hparent
    exact List.not_mem_nil hparent
  · intro hnone
    refine hr.of_same (mergedInto?_addGroupJoin hok) fun g hsome hmembers hjoins => ?_
    have hne : g ≠ group := fun heq => hsome (heq ▸ hnone)
    refine ⟨List.eq_nil_iff_forall_not_mem.2 fun s hs => ?_, (joinsIn_addGroupJoin hok hne).trans hjoins⟩
    rcases (mem_members_addGroupJoin hok hg).1 hs with hs | ⟨heq, -⟩
    · rw [hmembers] at hs
      exact List.not_mem_nil hs
    · exact hne heq

/-- A new join takes no source from any group. -/
theorem Peopled.addGroupJoin (hp : ctx.Peopled) (hok : ctx.addGroupJoin group parent child conditions join = .ok (id, ctx')) :
    ctx'.Peopled := by
  intro g y' hy' hnone
  rw [record?_group_addGroupJoin hok] at hy'
  obtain ⟨y, hy, rfl⟩ := Option.map_eq_some_iff.1 hy'
  split
  · exact List.ne_nil_of_mem (TableGroup.mem_addTable.2 (Or.inr rfl))
  · rename_i hne
    rw [if_neg hne] at hnone
    exact hp g y hy hnone

end AddGroupJoin

/-! ## A rejected group join -/

section RejectGroupJoin

variable {id : GroupJoinId}

/-- A rejection merges no groups. -/
theorem mergedInto?_rejectGroupJoin (hid : ctx.Has id) (g : GroupId) :
    (ctx.rejectGroupJoin id).mergedInto? g = ctx.mergedInto? g := by
  obtain ⟨j, hj⟩ := exists_record? hid
  cases hr : j.rejected with
  | true => rw [rejectGroupJoin_of_rejected hj hr]
  | false =>
    rw [mergedInto?_eq, record?_group_rejectGroupJoin hj hr, mergedInto?_eq]
    cases ctx.record? g with
    | none => rfl
    | some y =>
      simp only [Option.map_some, Option.bind_some]
      split <;> rfl

/-- After a rejection groups list no joins that they did not list before. -/
theorem joinsIn_rejectGroupJoin_subset (hid : ctx.Has id) (g : GroupId) :
    (ctx.rejectGroupJoin id).joinsIn g ⊆ ctx.joinsIn g := by
  obtain ⟨j, hj⟩ := exists_record? hid
  cases hr : j.rejected with
  | true =>
    rw [rejectGroupJoin_of_rejected hj hr]
    exact List.Subset.refl _
  | false =>
    rw [joinsIn_eq, record?_group_rejectGroupJoin hj hr, joinsIn_eq]
    cases ctx.record? g with
    | none => exact List.Subset.refl _
    | some y =>
      simp only [Option.map_some, Option.getD_some]
      split
      · exact List.filter_subset_self _
      · exact List.Subset.refl _

/-- A rejection only shortens lists of joins, so that merged groups stay empty. -/
theorem Retires.rejectGroupJoin (hr : ctx.Retires) (hid : ctx.Has id) : (ctx.rejectGroupJoin id).Retires := by
  refine hr.of_same (mergedInto?_rejectGroupJoin hid) fun g _ hmembers hjoins => ⟨?_, ?_⟩
  · rw [members_rejectGroupJoin hid, hmembers]
  · have hsubset := joinsIn_rejectGroupJoin_subset hid g
    rw [hjoins] at hsubset
    exact List.subset_nil.1 hsubset

/-- A rejection takes no source from any group. -/
theorem Peopled.rejectGroupJoin (hp : ctx.Peopled) (hid : ctx.Has id) : (ctx.rejectGroupJoin id).Peopled := by
  obtain ⟨j, hj⟩ := exists_record? hid
  cases hr : j.rejected with
  | true => rwa [rejectGroupJoin_of_rejected hj hr]
  | false =>
    intro g y' hy' hnone
    rw [record?_group_rejectGroupJoin hj hr] at hy'
    obtain ⟨y, hy, rfl⟩ := Option.map_eq_some_iff.1 hy'
    by_cases hg : g = j.group
    · simp only [if_pos hg] at hnone ⊢
      exact hp g y hy hnone
    · simp only [if_neg hg] at hnone ⊢
      exact hp g y hy hnone

end RejectGroupJoin

/-! ## Merged groups -/

section MergeGroups

variable {into other : GroupId}

/-- Merging makes one group point to the other and changes no other pointer. -/
theorem mergedInto?_mergeGroups (ho : ctx.Has other) (hne : into ≠ other) (g : GroupId) :
    (ctx.mergeGroups into other).mergedInto? g = if g = other then some into else ctx.mergedInto? g := by
  obtain ⟨y, hy⟩ := exists_record? ho
  rw [mergedInto?_eq, record?_group_mergeGroups hy hne, mergedInto?_eq]
  by_cases hgo : g = other
  · simp [hgo, hy, hne.symm]
  · cases ctx.record? g with
    | none => simp [hgo]
    | some z => by_cases hgi : g = into <;> simp [hgo, hgi, hne]

/-- Merging hands the joins of one group to the other and leaves the first without any. -/
theorem joinsIn_mergeGroups (hi : ctx.Has into) (ho : ctx.Has other) (hne : into ≠ other) (g : GroupId) :
    (ctx.mergeGroups into other).joinsIn g =
      if g = into then ctx.joinsIn into ++ ctx.joinsIn other else if g = other then [] else ctx.joinsIn g := by
  obtain ⟨y, hy⟩ := exists_record? ho
  obtain ⟨z, hz⟩ := exists_record? hi
  rw [joinsIn_eq, record?_group_mergeGroups hy hne, joinsIn_of_record? hz, joinsIn_of_record? hy]
  by_cases hgi : g = into
  · simp [hgi, hz]
  · by_cases hgo : g = other
    · simp [hgo, hy, hne.symm]
    · simp [hgi, hgo, joinsIn_eq]

/-- The group that is merged is on the way from the one that takes it over. -/
def Circles (ctx : Context) (into other : GroupId) : Prop := ∃ path, ctx.Forwards into path ∧ other ∈ path

/-- Merging leads every way on, unless it leads one back. -/
theorem exists_forwards_mergeGroups (ho : ctx.Has other) (hne : into ≠ other) (hends : ∀ g, ∃ path, ctx.Forwards g path)
    (hc : ¬ctx.Circles into other) (g : GroupId) : ∃ path, (ctx.mergeGroups into other).Forwards g path := by
  obtain ⟨rest, hrest⟩ := hends into
  have hkept : (ctx.mergeGroups into other).Forwards into rest := by
    refine hrest.congr fun h hh => ?_
    rw [mergedInto?_mergeGroups ho hne, if_neg]
    rintro rfl
    exact hc ⟨rest, hrest, hh⟩
  obtain ⟨path, hpath⟩ := hends g
  induction hpath with
  | @live g hnone =>
    by_cases hg : g = other
    · exact ⟨_, .merged (by rw [mergedInto?_mergeGroups ho hne, if_pos hg]) hkept⟩
    · exact ⟨_, .live (by rw [mergedInto?_mergeGroups ho hne, if_neg hg, hnone])⟩
  | @merged g h path hsome _ ih =>
    by_cases hg : g = other
    · exact ⟨_, .merged (by rw [mergedInto?_mergeGroups ho hne, if_pos hg]) hkept⟩
    · obtain ⟨path', hpath'⟩ := ih
      exact ⟨_, .merged (by rw [mergedInto?_mergeGroups ho hne, if_neg hg, hsome]) hpath'⟩

/-- After merging, the way from a group that led to the merged one still does. -/
theorem Forwards.mem_mergeGroups (ho : ctx.Has other) (hne : into ≠ other) (hg : ctx.Forwards g path) (hmem : other ∈ path)
    {path' : List GroupId} (hg' : (ctx.mergeGroups into other).Forwards g path') : other ∈ path' := by
  induction hg generalizing path' with
  | live _ =>
    cases List.mem_singleton.1 hmem
    exact hg'.head_mem
  | @merged g h path hsome hpath ih =>
    by_cases hgo : g = other
    · exact hgo ▸ hg'.head_mem
    · have hlink := mergedInto?_mergeGroups ho hne g
      rw [if_neg hgo, hsome] at hlink
      cases hg' with
      | live hnone => exact absurd hlink (by simp [hnone])
      | merged hsome' hrest =>
        rw [hlink] at hsome'
        cases hsome'
        exact List.mem_cons_of_mem g (ih (List.mem_of_ne_of_mem (Ne.symm hgo) hmem) hrest)

/-- Merging two groups revives a merged one: it gets the sources of one that was not merged, or the way from it comes back. -/
def Revives (ctx : Context) (into other : GroupId) : Prop :=
  into ≠ other ∧ ctx.mergedInto? into ≠ none ∧ (ctx.mergedInto? other = none ∨ ctx.Circles into other)

/-- Merging would close a circle exactly if the merged group is on the way forward from the other. -/
theorem circles_iff (hpath : ctx.Forwards into path) : ctx.Circles into other ↔ other ∈ path := by
  constructor
  · rintro ⟨path', hpath', hmem⟩
    rwa [hpath.unique hpath']
  · exact fun hmem => ⟨path, hpath, hmem⟩

/-- Merging into a group that was not merged itself closes no circle. -/
theorem not_circles_of_live (hnone : ctx.mergedInto? into = none) (hne : into ≠ other) : ¬ctx.Circles into other := by
  rw [circles_iff (.live hnone), List.mem_singleton]
  exact hne.symm

/-- After merging, the surviving group is empty exactly if both were, and the others as before. -/
theorem members_mergeGroups_eq_nil_iff (hi : ctx.Has into) (ho : ctx.Has other) (hne : into ≠ other) :
    (ctx.mergeGroups into other).members g = [] ↔
      (g = into → ctx.members other = []) ∧ (g ≠ other → ctx.members g = []) := by
  simp only [List.eq_nil_iff_forall_not_mem, mem_members_mergeGroups hi ho hne, not_or, not_and]
  constructor
  · intro h
    exact ⟨fun hg s => (h s).1 hg, fun hg s => (h s).2 hg⟩
  · intro h s
    exact ⟨fun hg => h.1 hg s, fun hg => h.2 hg s⟩

/-- A merged group does not stay retired when it is revived. -/
theorem Revives.not_retires (hrevives : ctx.Revives into other) (hp : ctx.Peopled) (hi : ctx.Has into) (ho : ctx.Has other) :
    ¬(ctx.mergeGroups into other).Retires := by
  obtain ⟨hne, hinto, hother | ⟨path, hpath, hmem⟩⟩ := hrevives <;> intro hr'
  · have hsome : (ctx.mergeGroups into other).mergedInto? into ≠ none := by
      rwa [mergedInto?_mergeGroups ho hne, if_neg hne]
    have hempty := ((members_mergeGroups_eq_nil_iff hi ho hne).1 (hr'.empty into hsome).1).1 rfl
    obtain ⟨y, hy⟩ := exists_record? ho
    rw [members_of_record? hy] at hempty
    exact hp other y hy ((mergedInto?_of_record? hy).symm.trans hother) hempty
  · obtain ⟨path', hpath', -⟩ := hr'.ends into
    have hlink : (ctx.mergeGroups into other).mergedInto? other = some into := by
      rw [mergedInto?_mergeGroups ho hne, if_pos rfl]
    exact Forwards.not_mem_of_link hlink hpath' (hpath.mem_mergeGroups ho hne hmem hpath')

/-- What merged groups had is with the group that takes over another one, which is empty then. -/
theorem Retires.empty_mergeGroups (hr : ctx.Retires) (hi : ctx.Has into) (ho : ctx.Has other) (hne : into ≠ other)
    (hinto : ctx.mergedInto? into ≠ none → ctx.mergedInto? other ≠ none)
    (hsome : (ctx.mergeGroups into other).mergedInto? g ≠ none) :
    (ctx.mergeGroups into other).members g = [] ∧ (ctx.mergeGroups into other).joinsIn g = [] := by
  rw [mergedInto?_mergeGroups ho hne] at hsome
  rw [members_mergeGroups_eq_nil_iff hi ho hne, joinsIn_mergeGroups hi ho hne]
  by_cases hgo : g = other
  · have hgi : g ≠ into := fun heq => hne (heq.symm.trans hgo)
    rw [if_neg hgi, if_pos hgo]
    exact ⟨⟨fun heq => absurd heq hgi, fun hneg => absurd hgo hneg⟩, rfl⟩
  · rw [if_neg hgo] at hsome
    obtain ⟨htables, hjoins⟩ := hr.empty g hsome
    by_cases hgi : g = into
    · obtain ⟨htables', hjoins'⟩ := hr.empty other (hinto (hgi ▸ hsome))
      rw [if_pos hgi, ← hgi, hjoins, hjoins']
      exact ⟨⟨fun _ => htables', fun _ => htables⟩, rfl⟩
    · rw [if_neg hgi, if_neg hgo]
      exact ⟨⟨fun heq => absurd heq hgi, fun _ => htables⟩, hjoins⟩

/-- Merged groups stay retired when one more is merged exactly if this revives none. -/
theorem Retires.mergeGroups_iff (hr : ctx.Retires) (hp : ctx.Peopled) (hi : ctx.Has into) (ho : ctx.Has other) :
    (ctx.mergeGroups into other).Retires ↔ ¬ctx.Revives into other := by
  by_cases hne : into = other
  · rw [hne, mergeGroups_self]
    exact ⟨fun _ hrevives => hrevives.1 rfl, fun _ => hr⟩
  constructor
  · exact fun hr' hrevives => hrevives.not_retires hp hi ho hr'
  · intro hrevives
    have hcircles : ¬ctx.Circles into other := by
      intro hc
      by_cases hinto : ctx.mergedInto? into = none
      · exact not_circles_of_live hinto hne hc
      · exact hrevives ⟨hne, hinto, Or.inr hc⟩
    have hinto : ctx.mergedInto? into ≠ none → ctx.mergedInto? other ≠ none :=
      fun hsome hnone => hrevives ⟨hne, hsome, Or.inl hnone⟩
    have hends := fun g => (hr.ends g).imp fun _ hpath => hpath.1
    exact retires_iff.2 ⟨fun g => hr.empty_mergeGroups hi ho hne hinto, exists_forwards_mergeGroups ho hne hends hcircles⟩

/-- A group that takes over another one keeps its sources, and the other is merged from then on. -/
theorem Peopled.mergeGroups (hp : ctx.Peopled) (ho : ctx.Has other) : (ctx.mergeGroups into other).Peopled := by
  by_cases hne : into = other
  · rwa [hne, mergeGroups_self]
  · obtain ⟨g₀, hg₀⟩ := exists_record? ho
    intro g y' hy' hnone
    rw [record?_group_mergeGroups hg₀ hne] at hy'
    obtain ⟨y, hy, rfl⟩ := Option.map_eq_some_iff.1 hy'
    split at hnone
    · rename_i hgi
      rw [if_pos hgi]
      obtain ⟨s, hs⟩ := List.exists_mem_of_ne_nil _ (hp g y hy ((TableGroup.mergedInto_addTables _ y).symm.trans hnone))
      exact List.ne_nil_of_mem (TableGroup.mem_addTables.2 (Or.inl hs))
    · rename_i hgi
      split at hnone
      · cases hnone
      · rename_i hgo
        rw [if_neg hgi, if_neg hgo]
        exact hp g y hy hnone

end MergeGroups

end ClusterPlan.Context
