import ClusterPlan.Proofs.Context.Trees

/-!
# What the operations on groups write

Each operation that forms, joins or merges groups, said entity by entity: what a group, a group join or a source is afterwards
as a function of what it was. The other operations leave all of this alone (`SameLinks`).
-/

namespace ClusterPlan

/-- Adding a source keeps the sources of a group distinct. -/
theorem TableGroup.nodup_addTable {g : TableGroup} {s : SourceId} (h : g.tables.Nodup) : (g.addTable s).tables.Nodup := by
  unfold addTable
  split
  · exact h
  · rename_i hs
    exact List.nodup_append.2 ⟨h, List.nodup_singleton s, fun a ha b hb heq => hs (by
      rw [← List.mem_singleton.1 hb, ← heq]
      exact ha)⟩

/-- Adding a source leaves the joins of a group. -/
@[simp] theorem TableGroup.joins_addTable (g : TableGroup) (s : SourceId) : (g.addTable s).joins = g.joins := by
  unfold addTable
  split <;> rfl

/-- Adding a source leaves what the group was merged into. -/
@[simp] theorem TableGroup.mergedInto_addTable (g : TableGroup) (s : SourceId) : (g.addTable s).mergedInto = g.mergedInto := by
  unfold addTable
  split <;> rfl

/-- After some sources were added, a group has these and those that it had. -/
theorem TableGroup.mem_addTables {tables : List SourceId} {g : TableGroup} {r : SourceId} :
    r ∈ (tables.foldl addTable g).tables ↔ r ∈ g.tables ∨ r ∈ tables := by
  induction tables generalizing g with
  | nil => simp
  | cons s tables ih => rw [List.foldl_cons, ih, mem_addTable, List.mem_cons, or_assoc]

/-- Adding sources one after the other keeps the sources of a group distinct. -/
theorem TableGroup.nodup_addTables {tables : List SourceId} {g : TableGroup} (h : g.tables.Nodup) :
    (tables.foldl addTable g).tables.Nodup := by
  induction tables generalizing g with
  | nil => exact h
  | cons s tables ih => exact ih (nodup_addTable h)

/-- Adding sources one after the other leaves the joins of a group. -/
@[simp] theorem TableGroup.joins_addTables (tables : List SourceId) (g : TableGroup) :
    (tables.foldl addTable g).joins = g.joins := by
  induction tables generalizing g with
  | nil => rfl
  | cons s tables ih => rw [List.foldl_cons, ih, joins_addTable]

/-- Adding sources one after the other leaves what the group was merged into. -/
@[simp] theorem TableGroup.mergedInto_addTables (tables : List SourceId) (g : TableGroup) :
    (tables.foldl addTable g).mergedInto = g.mergedInto := by
  induction tables generalizing g with
  | nil => rfl
  | cons s tables ih => rw [List.foldl_cons, ih, mergedInto_addTable]

namespace Context

variable {kind kind' : EntityKind} {ctx ctx' : Context}

/-! ## Insertions and updates as functions -/

/-- The records of the kind of a new entity are the new one and those that were there. -/
theorem record?_insert (ctx : Context) (x : kind.Record) (r : Ref kind) :
    (ctx.insert kind x).2.record? r = if r = (ctx.insert kind x).1 then some x else ctx.record? r := by
  by_cases hr : r = (ctx.insert kind x).1
  · rw [if_pos hr, hr, record?_insert_self]
  · rw [if_neg hr]
    by_cases hhas : ctx.Has r
    · exact record?_insert_of_has x hhas
    · cases hy : (ctx.insert kind x).2.record? r with
      | none =>
        cases hz : ctx.record? r with
        | none => rfl
        | some z => exact absurd (has_of_record? hz) hhas
      | some y =>
        rcases record?_insert_cases hy with hy | heq
        · exact hy.symm
        · cases heq
          exact absurd rfl hr

/-- An insertion leaves the records of the other kinds. -/
theorem record?_insert_of_ne (ctx : Context) (x : kind.Record) (h : kind' ≠ kind) (r : Ref kind') :
    (ctx.insert kind x).2.record? r = ctx.record? r :=
  record?_withArena_of_ne ctx _ h r

/-- The records of the kind of an updated entity are as they were, but for its own. -/
theorem record?_update (ctx : Context) (r : Ref kind) (f : kind.Record → kind.Record) (r' : Ref kind) :
    (ctx.update r f).record? r' = (ctx.record? r').map fun x => if r' = r then f x else x := by
  by_cases hr : r' = r
  · subst hr
    simp only [record?_update_self, if_true]
  · have hne : (⟨kind, r'⟩ : AnyRef) ≠ ⟨kind, r⟩ := by simpa using hr
    rw [record?_update_of_ne f hne]
    simp only [if_neg hr, Option.map_id']

/-- An update leaves the records of the other kinds. -/
theorem record?_update_of_kind (ctx : Context) (r : Ref kind) (f : kind.Record → kind.Record) (h : kind' ≠ kind)
    (r' : Ref kind') : (ctx.update r f).record? r' = ctx.record? r' :=
  record?_withArena_of_ne ctx _ h r'

/-- The same change to each entity of a list. -/
theorem record?_foldl_update (ctx : Context) (rs : List (Ref kind)) {f : kind.Record → kind.Record}
    (hf : ∀ x, f (f x) = f x) (r : Ref kind) :
    (rs.foldl (fun ctx r => ctx.update r f) ctx).record? r = (ctx.record? r).map fun x => if r ∈ rs then f x else x := by
  induction rs generalizing ctx with
  | nil => simp
  | cons r' rs ih =>
    rw [List.foldl_cons, ih, record?_update, Option.map_map]
    congr 1
    funext x
    by_cases hr : r = r' <;> by_cases hrs : r ∈ rs <;> simp [hr, hrs, hf]

/-- Updates one after the other leave the records of the other kinds. -/
theorem record?_foldl_update_of_kind (ctx : Context) (rs : List (Ref kind)) (f : kind.Record → kind.Record)
    (h : kind' ≠ kind) (r : Ref kind') : (rs.foldl (fun ctx r => ctx.update r f) ctx).record? r = ctx.record? r := by
  rw [foldl_update_eq]
  exact record?_withArena_of_ne ctx _ h r

/-! ## Groups and joins of a well-formed context -/

/-- The group that a join names is in the context. -/
theorem WellFormed.has_groupOf (h : ctx.WellFormed) {j : GroupJoinId} {x : GroupJoin} (hx : ctx.record? j = some x) :
    ctx.Has x.group :=
  h.closed j x (has_of_record? hx) hx ⟨.group, x.group⟩ (by simp [EntityKind.references])

/-- The sources that a group lists are in the context. -/
theorem WellFormed.has_table (h : ctx.WellFormed) {g : GroupId} {y : TableGroup} (hy : ctx.record? g = some y) {s : SourceId}
    (hs : s ∈ y.tables) : ctx.Has s :=
  h.closed g y (has_of_record? hy) hy ⟨.source, s⟩ (by simp [EntityKind.references, hs])

/-! ## Operations that leave groups and joins alone -/

/-- Groups and group joins are the same, and each source has the group and the parent join that it had; a new source has
neither. -/
structure SameLinks (ctx ctx' : Context) : Prop where
  group : ∀ g : GroupId, ctx'.record? g = ctx.record? g
  groupJoin : ∀ j : GroupJoinId, ctx'.record? j = ctx.record? j
  source : ∀ (s : SourceId) x, ctx'.record? s = some x →
    (∃ y : TableSource, ctx.record? s = some y ∧ x.group = y.group ∧ x.parentJoin = y.parentJoin) ∨
      ¬ctx.Has s ∧ x.group = none ∧ x.parentJoin = none

/-- Contexts with the same groups, joins and sources have the same links between them. -/
theorem sameLinks_of_arenas (hg : ctx'.groups = ctx.groups) (hj : ctx'.groupJoins = ctx.groupJoins)
    (hs : ctx'.sources = ctx.sources) : ctx.SameLinks ctx' := by
  refine ⟨fun g => congrArg (Arena.get? · g) hg, fun j => congrArg (Arena.get? · j) hj, ?_⟩
  intro s x hx
  exact Or.inl ⟨x, (congrArg (Arena.get? · s) hs).symm.trans hx, rfl, rfl⟩

/-- Looking for the node of a table, and adding it, concerns trees and nodes only. -/
theorem arenas_nodeFor (tree : TreeId) (table : Catalog.Table) :
    (ctx.nodeFor tree table).2.groups = ctx.groups ∧ (ctx.nodeFor tree table).2.groupJoins = ctx.groupJoins ∧
      (ctx.nodeFor tree table).2.sources = ctx.sources := by
  induction table with
  | root info =>
    unfold nodeFor
    split <;> exact ⟨rfl, rfl, rfl⟩
  | child info key parent ih =>
    unfold nodeFor
    split
    · exact ⟨rfl, rfl, rfl⟩
    · exact ih

/-- The links stay when the node of a table is looked for. -/
theorem sameLinks_nodeFor (tree : TreeId) (table : Catalog.Table) : ctx.SameLinks (ctx.nodeFor tree table).2 := by
  obtain ⟨hg, hj, hs⟩ := ctx.arenas_nodeFor tree table
  exact sameLinks_of_arenas hg hj hs

/-- A new source is in no group, so that the links stay. -/
theorem sameLinks_addSource (node : NodeId) (name : String) (required : Bool) :
    ctx.SameLinks (ctx.addSource node name required).2 := by
  rw [addSource_eq]
  refine ⟨fun _ => rfl, fun _ => rfl, ?_⟩
  intro s x hx
  dsimp only at hx
  rw [record?_update_of_kind _ _ _ (by simp), record?_insert] at hx
  split at hx
  · rename_i hs
    cases hx
    refine Or.inr ⟨?_, rfl, rfl⟩
    rw [hs]
    exact Nat.lt_irrefl _
  · exact Or.inl ⟨x, hx, rfl, rfl⟩

/-- Whether a source is required is no link. -/
theorem sameLinks_setRequired (s : SourceId) (required : Bool) : ctx.SameLinks (ctx.setRequired s required) := by
  rw [setRequired_eq]
  refine ⟨fun _ => rfl, fun _ => rfl, ?_⟩
  intro r x hx
  rw [record?_update] at hx
  obtain ⟨y, hy, rfl⟩ := Option.map_eq_some_iff.1 hx
  refine Or.inl ⟨y, hy, ?_⟩
  split <;> exact ⟨rfl, rfl⟩

/-! ## A new group -/

variable {first parent child : SourceId} {group into other : GroupId} {conditions : List ConditionId} {join : Catalog.Join}
  {id : GroupJoinId}

/-- The group that is added was not in the context before. -/
theorem not_has_addGroup (ctx : Context) (first : SourceId) : ¬ctx.Has (ctx.addGroup first).1 :=
  Nat.lt_irrefl _

/-- Adding a group adds one record, that of a group of one source without joins. -/
theorem record?_group_addGroup (ctx : Context) (first : SourceId) (g : GroupId) :
    (ctx.addGroup first).2.record? g = if g = (ctx.addGroup first).1 then some { tables := [first] } else ctx.record? g := by
  rw [addGroup_eq]
  exact (record?_update_of_kind _ _ _ (by simp) g).trans (record?_insert ctx _ g)

/-- Adding a group tells its first source, and no other, which group it is in. -/
theorem record?_source_addGroup (ctx : Context) (first s : SourceId) :
    (ctx.addGroup first).2.record? s =
      (ctx.record? s).map fun x => if s = first then { x with group := some (ctx.addGroup first).1 } else x := by
  rw [addGroup_eq]
  exact record?_update _ _ _ s

/-! ## A new group join -/

/-- The group join that is added. -/
theorem addGroupJoin_ok (hok : ctx.addGroupJoin group parent child conditions join = .ok (id, ctx')) :
    ctx.joins join parent child = true ∧ id = (ctx.insert .groupJoin { group, parent, child, conditions, join }).1 := by
  by_cases hj : ctx.joins join parent child = true
  · rw [addGroupJoin_eq hj] at hok
    simp only [Except.ok.injEq, Prod.mk.injEq] at hok
    exact ⟨hj, hok.1.symm⟩
  · rw [addGroupJoin, if_neg hj] at hok
    cases hok

/-- The join that is added was not in the context before. -/
theorem not_has_addGroupJoin (hok : ctx.addGroupJoin group parent child conditions join = .ok (id, ctx')) : ¬ctx.Has id := by
  rw [(addGroupJoin_ok hok).2]
  exact Nat.lt_irrefl _

/-- A source that joins a group is added to its tables. -/
theorem record?_group_joinGroup (ctx : Context) (group : GroupId) (s : SourceId) (g : GroupId) :
    (ctx.joinGroup group s).record? g = (ctx.record? g).map fun y => if g = group then y.addTable s else y := by
  rw [joinGroup_eq]
  exact (record?_update_of_kind _ _ _ (by simp) g).trans (record?_update ctx group _ g)

/-- A source that joins a group is told so, and no other is. -/
theorem record?_source_joinGroup (ctx : Context) (group : GroupId) (s r : SourceId) :
    (ctx.joinGroup group s).record? r =
      (ctx.record? r).map fun x => if r = s then { x with group := some group } else x := by
  rw [joinGroup_eq]
  exact record?_update _ _ _ r

/-- Adding a join adds one record, which holds what the join was made of and is not rejected. -/
theorem record?_groupJoin_addGroupJoin (hok : ctx.addGroupJoin group parent child conditions join = .ok (id, ctx'))
    (j : GroupJoinId) :
    ctx'.record? j = if j = id then some { group, parent, child, conditions, join } else ctx.record? j := by
  obtain ⟨hj, rfl⟩ := addGroupJoin_ok hok
  rw [addGroupJoin_eq hj] at hok
  simp only [Except.ok.injEq, Prod.mk.injEq, true_and] at hok
  subst hok
  exact record?_insert ctx _ j

/-- Adding a join adds it and both its sources to its group, and leaves the other groups. -/
theorem record?_group_addGroupJoin (hok : ctx.addGroupJoin group parent child conditions join = .ok (id, ctx'))
    (g : GroupId) :
    ctx'.record? g = (ctx.record? g).map fun y =>
      if g = group then { (y.addTable parent).addTable child with joins := y.joins ++ [id] } else y := by
  obtain ⟨hj, rfl⟩ := addGroupJoin_ok hok
  rw [addGroupJoin_eq hj] at hok
  simp only [Except.ok.injEq, Prod.mk.injEq, true_and] at hok
  subst hok
  rw [record?_update_of_kind _ _ _ (by simp), record?_update, record?_group_joinGroup, record?_group_joinGroup,
    Option.map_map, Option.map_map]
  refine congrArg (Option.map · (ctx.record? g)) ?_
  funext y
  by_cases hg : g = group <;> simp [hg]

/-- Adding a join puts both its sources into its group and is recorded on the child. -/
theorem record?_source_addGroupJoin (hok : ctx.addGroupJoin group parent child conditions join = .ok (id, ctx'))
    (s : SourceId) :
    ctx'.record? s = (ctx.record? s).map fun x =>
      { x with
        group := if s = parent ∨ s = child then some group else x.group
        parentJoin := if s = child then some id else x.parentJoin } := by
  obtain ⟨hj, rfl⟩ := addGroupJoin_ok hok
  rw [addGroupJoin_eq hj] at hok
  simp only [Except.ok.injEq, Prod.mk.injEq, true_and] at hok
  subst hok
  rw [record?_update, record?_update_of_kind _ _ _ (by simp), record?_source_joinGroup, record?_source_joinGroup,
    Option.map_map, Option.map_map]
  refine congrArg (Option.map · (ctx.record? s)) ?_
  funext x
  simp only [Function.comp_apply]
  by_cases hp : s = parent
  · by_cases hc : s = child
    · simp only [if_pos hp, if_pos hc, if_pos (Or.inl hp : s = parent ∨ s = child)]
    · simp only [if_pos hp, if_neg hc, if_pos (Or.inl hp : s = parent ∨ s = child)]
  · by_cases hc : s = child
    · simp only [if_neg hp, if_pos hc, if_pos (Or.inr hc : s = parent ∨ s = child)]
    · simp only [if_neg hp, if_neg hc, if_neg (not_or.2 ⟨hp, hc⟩)]

/-! ## A rejected group join -/

variable {j : GroupJoin}

/-- A join that is rejected already is left alone. -/
theorem rejectGroupJoin_of_rejected (hj : ctx.record? id = some j) (hr : j.rejected = true) :
    ctx.rejectGroupJoin id = ctx := by
  have hget : ctx.groupJoins.get id = j := Arena.get_of_get? _ hj
  rw [rejectGroupJoin_eq, hget]
  exact if_pos hr

/-- Rejecting a join marks it, takes it from the list of its group and from the record of its child. -/
theorem rejectGroupJoin_of_accepted (hj : ctx.record? id = some j) (hr : j.rejected = false) :
    ctx.rejectGroupJoin id =
      ((ctx.update id fun j => { j with rejected := true }).update j.group fun g =>
        { g with joins := g.joins.filter (· != id) }).update j.child fun s =>
          if s.parentJoin = some id then { s with parentJoin := none } else s := by
  have hget : ctx.groupJoins.get id = j := Arena.get_of_get? _ hj
  rw [rejectGroupJoin_eq, hget]
  dsimp only
  rw [hr]
  rfl

/-- After a rejection the join is marked, and the other joins are as they were. -/
theorem record?_groupJoin_rejectGroupJoin (hj : ctx.record? id = some j) (hr : j.rejected = false) (i : GroupJoinId) :
    (ctx.rejectGroupJoin id).record? i =
      (ctx.record? i).map fun x => if i = id then { x with rejected := true } else x := by
  rw [rejectGroupJoin_of_accepted hj hr, record?_update_of_kind _ _ _ (by simp), record?_update_of_kind _ _ _ (by simp)]
  exact record?_update _ _ _ i

/-- After a rejection the group of the join no longer lists it, and the other groups are as they were. -/
theorem record?_group_rejectGroupJoin (hj : ctx.record? id = some j) (hr : j.rejected = false) (g : GroupId) :
    (ctx.rejectGroupJoin id).record? g =
      (ctx.record? g).map fun y => if g = j.group then { y with joins := y.joins.filter (· != id) } else y := by
  rw [rejectGroupJoin_of_accepted hj hr]
  exact (record?_update_of_kind _ _ _ (by simp) g).trans (record?_update _ _ _ g)

/-- After a rejection the child has no parent join if the rejected one was recorded on it; other sources stay. -/
theorem record?_source_rejectGroupJoin (hj : ctx.record? id = some j) (hr : j.rejected = false) (s : SourceId) :
    (ctx.rejectGroupJoin id).record? s =
      (ctx.record? s).map fun x => if s = j.child ∧ x.parentJoin = some id then { x with parentJoin := none } else x := by
  rw [rejectGroupJoin_of_accepted hj hr, record?_update]
  refine congrArg (Option.map · (ctx.record? s)) ?_
  funext x
  by_cases hs : s = j.child <;> simp [hs]

/-! ## Merged groups -/

variable {g : TableGroup}

/-- Merging a group into itself changes nothing. -/
theorem mergeGroups_self (ctx : Context) (g : GroupId) : ctx.mergeGroups g g = ctx := by
  rw [mergeGroups_eq]
  exact if_pos rfl

/-- Merging is a series of updates: of the joins, of the sources and of both groups. -/
theorem mergeGroups_of_ne (ho : ctx.record? other = some g) (hne : into ≠ other) :
    ctx.mergeGroups into other =
      (g.joins.foldl (fun ctx j => ctx.update j fun x => { x with group := into })
        (g.tables.foldl (fun ctx s => ctx.update s fun x => { x with group := some into })
          (ctx.update other fun _ => { mergedInto := some into }))).update into fun target =>
            { g.tables.foldl TableGroup.addTable target with joins := target.joins ++ g.joins } := by
  have hget : ctx.groups.get other = g := Arena.get_of_get? _ ho
  rw [mergeGroups_eq, hget]
  dsimp only
  rw [if_neg hne]
  simp only [TableGroup.joins_addTables]

/-- After merging, one group has the sources and joins of both, the other has none and points to it. -/
theorem record?_group_mergeGroups (ho : ctx.record? other = some g) (hne : into ≠ other) (r : GroupId) :
    (ctx.mergeGroups into other).record? r =
      (ctx.record? r).map fun y =>
        if r = into then { g.tables.foldl TableGroup.addTable y with joins := y.joins ++ g.joins }
        else if r = other then { mergedInto := some into } else y := by
  rw [mergeGroups_of_ne ho hne, record?_update, record?_foldl_update_of_kind _ _ _ (by simp),
    record?_foldl_update_of_kind _ _ _ (by simp), record?_update, Option.map_map]
  refine congrArg (Option.map · (ctx.record? r)) ?_
  funext y
  by_cases hi : r = into
  · simp [hi, hne]
  · simp [hi]

/-- Merging moves the joins that the merged group lists, and no others. -/
theorem record?_groupJoin_mergeGroups (ho : ctx.record? other = some g) (hne : into ≠ other) (i : GroupJoinId) :
    (ctx.mergeGroups into other).record? i =
      (ctx.record? i).map fun x => if i ∈ g.joins then { x with group := into } else x := by
  rw [mergeGroups_of_ne ho hne, record?_update_of_kind _ _ _ (by simp),
    record?_foldl_update _ g.joins (f := fun x => { x with group := into }) (fun _ => rfl),
    record?_foldl_update_of_kind _ _ _ (by simp), record?_update_of_kind _ _ _ (by simp)]

/-- Merging moves the sources that the merged group lists, and no others. -/
theorem record?_source_mergeGroups (ho : ctx.record? other = some g) (hne : into ≠ other) (s : SourceId) :
    (ctx.mergeGroups into other).record? s =
      (ctx.record? s).map fun x => if s ∈ g.tables then { x with group := some into } else x := by
  rw [mergeGroups_of_ne ho hne, record?_update_of_kind _ _ _ (by simp), record?_foldl_update_of_kind _ _ _ (by simp),
    record?_foldl_update _ g.tables (f := fun x => { x with group := some into }) (fun _ => rfl),
    record?_update_of_kind _ _ _ (by simp)]

end Context

end ClusterPlan
