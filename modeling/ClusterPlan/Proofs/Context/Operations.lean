import ClusterPlan.Proofs.Context.WellFormed

/-!
# What the operations of a context change

Requiring a source, rejecting a group join and merging groups change entities of a set only, and put no reference into them
that leads out of it, if the set is closed and holds the entities that they are given (`Within`). With the set of all entities
this says that they keep a context well-formed; with the copies of a session it says that they leave the originals alone.
-/

namespace ClusterPlan.Context

variable {kind : EntityKind} {ctx ctx' : Context} {P : AnyRef → Prop}

/-- Only entities of a set changed, other than trees and nodes, and all references that were put into them lead to entities
of the set. -/
structure Within (P : AnyRef → Prop) (ctx ctx' : Context) : Prop where
  closed : ctx.ClosedUnder P → ctx'.ClosedUnder P
  outside : ctx.AgreesOutside ctx' P
  size : ∀ kind, (ctx'.arena kind).size = (ctx.arena kind).size
  trees : ctx.SameTrees ctx'
  conditionJoins : ctx'.conditionJoins = ctx.conditionJoins

theorem Within.refl (P : AnyRef → Prop) (ctx : Context) : Within P ctx ctx :=
  ⟨id, AgreesOutside.refl ctx P, fun _ => rfl, .refl ctx, rfl⟩

/-- Changes within a set, one after the other, stay within it. -/
theorem Within.trans {ctx₁ ctx₂ ctx₃ : Context} (h : Within P ctx₁ ctx₂) (h' : Within P ctx₂ ctx₃) : Within P ctx₁ ctx₃ :=
  ⟨h'.closed ∘ h.closed, AgreesOutside.trans h.outside h'.outside, fun kind => (h'.size kind).trans (h.size kind),
    h.trees.trans h'.trees, h'.conditionJoins.trans h.conditionJoins⟩

/-- A change that puts no reference into an entity that does not lead to the set. -/
def KeepsInside (P : AnyRef → Prop) (f : kind.Record → kind.Record) : Prop :=
  ∀ x, (∀ ref ∈ kind.references x, P ref) → ∀ ref ∈ kind.references (f x), P ref

/-- An update inside a set that leaves references inside is a change within the set. -/
theorem within_update (ctx : Context) {r : Ref kind} {f : kind.Record → kind.Record} (ht : kind ≠ .tree)
    (hn : kind ≠ .node) (hr : P ⟨kind, r⟩) (hf : KeepsInside P f) : Within P ctx (ctx.update r f) where
  closed h := h.update fun x hP hx => hf x (h r x hP hx)
  outside := agreesOutside_update f hr
  size := size_update ctx r f
  trees := sameTrees_withArena ctx _ ht hn
  conditionJoins := conditionJoins_update ctx r f

theorem within_foldl_update (ctx : Context) {rs : List (Ref kind)} {f : kind.Record → kind.Record} (ht : kind ≠ .tree)
    (hn : kind ≠ .node) (hr : ∀ r ∈ rs, P ⟨kind, r⟩) (hf : KeepsInside P f) :
    Within P ctx (rs.foldl (fun ctx r => ctx.update r f) ctx) := by
  induction rs generalizing ctx with
  | nil => exact .refl P ctx
  | cons r rs ih =>
    refine (within_update ctx ht hn (hr r (by simp)) hf).trans (ih _ ?_)
    intro r' hr'
    exact hr r' (List.mem_cons_of_mem r hr')

/-! ## Changes of sources, groups and group joins -/

/-- Whether a source is required is no reference. -/
theorem keepsInside_required (P : AnyRef → Prop) (required : Bool) :
    KeepsInside P (fun x => { x with required } : EntityKind.source.Record → EntityKind.source.Record) :=
  fun _ h => h

/-- Moving a source to a group of the set keeps its references inside. -/
theorem keepsInside_sourceGroup {group : GroupId} (hg : P ⟨.group, group⟩) :
    KeepsInside P (fun x => { x with group := some group } : EntityKind.source.Record → EntityKind.source.Record) := by
  intro x h
  simp only [EntityKind.references, Option.toList_some, List.map_cons, List.map_nil, List.forall_mem_cons,
    List.forall_mem_append] at h ⊢
  exact ⟨h.1, ⟨hg, by simp⟩, h.2.2⟩

/-- Recording a join of the set as the parent join keeps references inside. -/
theorem keepsInside_parentJoin {join : GroupJoinId} (hj : P ⟨.groupJoin, join⟩) :
    KeepsInside P (fun x => { x with parentJoin := some join } : EntityKind.source.Record → EntityKind.source.Record) := by
  intro x h
  simp only [EntityKind.references, Option.toList_some, List.map_cons, List.map_nil, List.forall_mem_cons,
    List.forall_mem_append] at h ⊢
  exact ⟨h.1, h.2.1, hj, by simp⟩

/-- Forgetting a parent join keeps references inside. -/
theorem keepsInside_dropParentJoin (P : AnyRef → Prop) (join : GroupJoinId) :
    KeepsInside P (fun x => if x.parentJoin = some join then { x with parentJoin := none } else x :
      EntityKind.source.Record → EntityKind.source.Record) := by
  intro x h
  dsimp only
  split
  · simp only [EntityKind.references, List.forall_mem_cons, List.forall_mem_append] at h ⊢
    exact ⟨h.1, h.2.1, by simp⟩
  · exact h

/-- Marking a join as rejected keeps its references. -/
theorem keepsInside_rejected (P : AnyRef → Prop) :
    KeepsInside P (fun j => { j with rejected := true } : EntityKind.groupJoin.Record → EntityKind.groupJoin.Record) :=
  fun _ h => h

/-- Moving a join to a group of the set keeps its references inside. -/
theorem keepsInside_joinGroup {group : GroupId} (hg : P ⟨.group, group⟩) :
    KeepsInside P (fun j => { j with group } : EntityKind.groupJoin.Record → EntityKind.groupJoin.Record) := by
  intro j h
  simp only [EntityKind.references, List.forall_mem_cons] at h ⊢
  exact ⟨hg, h.2⟩

/-- A group may take in a source of the set. -/
theorem keepsInside_addTable {s : SourceId} (hs : P ⟨.source, s⟩) :
    KeepsInside P (fun g => g.addTable s : EntityKind.group.Record → EntityKind.group.Record) := by
  intro g h
  have hrest : (g.addTable s).joins = g.joins ∧ (g.addTable s).mergedInto = g.mergedInto := by
    unfold TableGroup.addTable
    split <;> exact ⟨rfl, rfl⟩
  simp only [EntityKind.references, List.forall_mem_append, List.forall_mem_map, hrest, TableGroup.mem_addTable] at h ⊢
  refine ⟨⟨?_, h.1.2⟩, h.2⟩
  rintro r (hr | rfl)
  · exact h.1.1 r hr
  · exact hs

/-- A group may take in sources of the set one after the other. -/
theorem keepsInside_addTables {tables : List SourceId} (hs : ∀ s ∈ tables, P ⟨.source, s⟩) :
    KeepsInside P (fun g => tables.foldl TableGroup.addTable g : EntityKind.group.Record → EntityKind.group.Record) := by
  induction tables with
  | nil => exact fun _ h => h
  | cons s tables ih =>
    intro g h
    exact ih (fun s' hs' => hs s' (List.mem_cons_of_mem s hs')) _ (keepsInside_addTable (hs s (by simp)) g h)

/-- A group may take in joins of the set. -/
theorem keepsInside_addJoins {joins : List GroupJoinId} (hj : ∀ j ∈ joins, P ⟨.groupJoin, j⟩) :
    KeepsInside P (fun g => { g with joins := g.joins ++ joins } : EntityKind.group.Record → EntityKind.group.Record) := by
  intro g h
  simp only [EntityKind.references, List.forall_mem_append, List.forall_mem_map] at h ⊢
  exact ⟨⟨h.1.1, h.1.2, hj⟩, h.2⟩

/-- A group that gives up a join refers to less. -/
theorem keepsInside_dropJoin (P : AnyRef → Prop) (join : GroupJoinId) :
    KeepsInside P (fun g => { g with joins := g.joins.filter (· != join) } :
      EntityKind.group.Record → EntityKind.group.Record) := by
  intro g h
  simp only [EntityKind.references, List.forall_mem_append, List.forall_mem_map] at h ⊢
  exact ⟨⟨h.1.1, fun j hj => h.1.2 j (List.mem_filter.1 hj).1⟩, h.2⟩

/-- A merged group refers to nothing but the group of the set that took it over. -/
theorem keepsInside_merged {into : GroupId} (hi : P ⟨.group, into⟩) :
    KeepsInside P (fun _ => { mergedInto := some into } : EntityKind.group.Record → EntityKind.group.Record) := by
  intro g _
  simp [EntityKind.references, hi]

/-- What a group of a closed set holds is in the set. -/
theorem ClosedUnder.of_group (h : ctx.ClosedUnder P) {group : GroupId} (hg : P ⟨.group, group⟩) :
    (∀ s ∈ (ctx.groups.get group).tables, P ⟨.source, s⟩) ∧ ∀ j ∈ (ctx.groups.get group).joins, P ⟨.groupJoin, j⟩ := by
  by_cases hhas : ctx.Has group
  · obtain ⟨g, hg'⟩ := exists_record? hhas
    have hall := h group g hg hg'
    simp only [EntityKind.references, List.forall_mem_append, List.forall_mem_map] at hall
    have hget : ctx.groups.get group = g := Arena.get_of_get? _ hg'
    rw [hget]
    exact ⟨hall.1.1, hall.1.2⟩
  · have hget : ctx.groups.get group = default := Arena.get_of_size_le _ (Nat.not_lt.1 hhas)
    rw [hget]
    exact ⟨fun _ hs => absurd hs List.not_mem_nil, fun _ hj => absurd hj List.not_mem_nil⟩

/-- Requiring a source of the set is a change within the set. -/
theorem within_setRequired {s : SourceId} (hs : P ⟨.source, s⟩) (required : Bool) :
    Within P ctx (ctx.setRequired s required) := by
  rw [setRequired_eq]
  exact within_update ctx (by simp) (by simp) hs (keepsInside_required P required)

/-- A source and a group of the set can be brought together within it. -/
theorem within_joinGroup {group : GroupId} {s : SourceId} (hg : P ⟨.group, group⟩) (hs : P ⟨.source, s⟩) :
    Within P ctx (ctx.joinGroup group s) := by
  rw [joinGroup_eq]
  exact (within_update ctx (by simp) (by simp) hg (keepsInside_addTable hs)).trans
    (within_update _ (by simp) (by simp) hs (keepsInside_sourceGroup hg))

/-- Rejecting a join of a closed set reaches its group and its child, which are in the set. -/
theorem within_rejectGroupJoin (h : ctx.ClosedUnder P) {id : GroupJoinId} (hid : P ⟨.groupJoin, id⟩) (hhas : ctx.Has id) :
    Within P ctx (ctx.rejectGroupJoin id) := by
  obtain ⟨j, hj⟩ := exists_record? hhas
  have hrefs := h id j hid hj
  simp only [EntityKind.references, List.forall_mem_cons] at hrefs
  obtain ⟨hgroup, -, hchild, -⟩ := hrefs
  have hget : ctx.groupJoins.get id = j := Arena.get_of_get? _ hj
  rw [rejectGroupJoin_eq, hget]
  dsimp only
  split
  · exact .refl P ctx
  · refine ((within_update ctx ?_ ?_ hid (keepsInside_rejected P)).trans
      (within_update _ ?_ ?_ hgroup (keepsInside_dropJoin P id))).trans
        (within_update _ ?_ ?_ hchild (keepsInside_dropParentJoin P id)) <;> simp

/-- Merging groups of a closed set reaches their joins and sources, which are in the set. -/
theorem within_mergeGroups (h : ctx.ClosedUnder P) {into other : GroupId} (hi : P ⟨.group, into⟩) (ho : P ⟨.group, other⟩) :
    Within P ctx (ctx.mergeGroups into other) := by
  obtain ⟨htables, hjoins⟩ := h.of_group ho
  rw [mergeGroups_eq]
  dsimp only
  split
  · exact .refl P ctx
  · have hmerged := within_update ctx (by simp) (by simp) ho (keepsInside_merged hi)
    have hsources := hmerged.trans (within_foldl_update _ (by simp) (by simp) htables (keepsInside_sourceGroup hi))
    have hgroupJoins := hsources.trans (within_foldl_update _ (by simp) (by simp) hjoins (keepsInside_joinGroup hi))
    refine hgroupJoins.trans (within_update _ (by simp) (by simp) hi ?_)
    intro g hg
    exact keepsInside_addJoins hjoins _ (keepsInside_addTables htables g hg)

/-! ## The operations keep a context well-formed -/

/-- Contexts with the same arenas are well-formed together. -/
theorem WellFormed.of_arenas (h : ctx.WellFormed) (ha : ∀ kind, ctx'.arena kind = ctx.arena kind) : ctx'.WellFormed := by
  have hr : ∀ {kind : EntityKind} (r : Ref kind), ctx'.record? r = ctx.record? r := by
    intro kind r
    rw [record?, ha, record?]
  refine ⟨?_, h.shaped.of_sameTrees ⟨fun t => hr t, ?_⟩⟩
  · refine (closed_iff_of_size fun kind => congrArg Arena.size (ha kind)).2 ?_
    intro kind r x hhas hx
    rw [hr] at hx
    exact h.closed r x hhas hx
  · intro n y hy
    rw [hr] at hy
    exact ⟨y, hy, rfl⟩

/-- A change within what a well-formed context holds keeps it well-formed. -/
theorem WellFormed.of_within (h : ctx.WellFormed) (hw : Within (fun ref => ctx.Has ref.2) ctx ctx') : ctx'.WellFormed :=
  ⟨(closed_iff_of_size hw.size).2 (hw.closed h.closed), h.shaped.of_sameTrees hw.trees⟩

/-- A context without entities is well-formed. -/
theorem wellFormed_withConfig (config : Config) : (withConfig config).WellFormed := by
  have hnone : ∀ {kind : EntityKind} (r : Ref kind), (withConfig config).record? r = none := by
    intro kind r
    cases kind <;> rfl
  refine ⟨?_, ?_, ?_, ?_, ?_, ?_⟩
  · intro kind r x _ hx
    rw [hnone] at hx
    cases hx
  all_goals
    intro r x
    rw [hnone]
    intros
    contradiction

/-- A new entity other than a tree or a node. -/
theorem WellFormed.insert (h : ctx.WellFormed) {x : kind.Record} (ht : kind ≠ .tree) (hn : kind ≠ .node)
    (hx : ∀ ref ∈ kind.references x, (ctx.insert kind x).2.Has ref.2) : (ctx.insert kind x).2.WellFormed :=
  ⟨Closed.insert h.closed hx, h.shaped.of_sameTrees (sameTrees_withArena ctx _ ht hn)⟩

theorem WellFormed.addHashTable (h : ctx.WellFormed) (t : HashTable) : (ctx.addHashTable t).2.WellFormed := by
  rw [addHashTable_eq]
  exact h.insert (by simp) (by simp) (by simp [EntityKind.references])

theorem WellFormed.addBloomFilter (h : ctx.WellFormed) (f : BloomFilter) : (ctx.addBloomFilter f).2.WellFormed := by
  rw [addBloomFilter_eq]
  exact h.insert (by simp) (by simp) (by simp [EntityKind.references])

/-- A join by a foreign key refers to its two sources. -/
theorem WellFormed.addKeyJoin (h : ctx.WellFormed) {parent child : SourceId} (hp : ctx.Has parent) (hc : ctx.Has child)
    (conditions : List ConditionId) (foreignKey : Catalog.ForeignKey) :
    (ctx.addKeyJoin parent child conditions foreignKey).2.WellFormed := by
  rw [addKeyJoin_eq]
  refine h.insert (by simp) (by simp) ?_
  simp only [EntityKind.references, List.forall_mem_cons]
  exact ⟨hp.insert _, hc.insert _, by simp⟩

theorem WellFormed.setProperty (h : ctx.WellFormed) (name value : String) : (ctx.setProperty name value).WellFormed :=
  h.of_arenas fun kind => by cases kind <;> rfl

/-- Which join a condition belongs to is no reference of an entity. -/
theorem WellFormed.registerConditions (h : ctx.WellFormed) (conditions : List ConditionId) (join : GroupJoinId) :
    (ctx.registerConditions conditions join).WellFormed :=
  h.of_arenas fun kind => by cases kind <;> rfl

/-- Requiring a source keeps a context well-formed. -/
theorem WellFormed.setRequired (h : ctx.WellFormed) {s : SourceId} (hs : ctx.Has s) (required : Bool) :
    (ctx.setRequired s required).WellFormed :=
  h.of_within (within_setRequired hs required)

/-- Rejecting a join keeps a context well-formed. -/
theorem WellFormed.rejectGroupJoin (h : ctx.WellFormed) {id : GroupJoinId} (hid : ctx.Has id) :
    (ctx.rejectGroupJoin id).WellFormed :=
  h.of_within (within_rejectGroupJoin h.closed hid hid)

/-- Merging two groups keeps a context well-formed. -/
theorem WellFormed.mergeGroups (h : ctx.WellFormed) {into other : GroupId} (hi : ctx.Has into) (ho : ctx.Has other) :
    (ctx.mergeGroups into other).WellFormed :=
  h.of_within (within_mergeGroups h.closed hi ho)

/-- A new group refers to its first source, and that source to it. -/
theorem WellFormed.addGroup (h : ctx.WellFormed) {first : SourceId} (hf : ctx.Has first) :
    (ctx.addGroup first).2.WellFormed := by
  rw [addGroup_eq]
  have hins : (ctx.insert .group { tables := [first] }).2.WellFormed := by
    refine h.insert (by simp) (by simp) ?_
    simp only [EntityKind.references, List.map_cons, List.map_nil, Option.toList_none, List.append_nil,
      List.forall_mem_cons]
    exact ⟨hf.insert _, by simp⟩
  exact hins.of_within (within_update _ (by simp) (by simp) (hf.insert _) (keepsInside_sourceGroup (has_insert_self ctx _)))

/-- An added join refers to its group and its sources, and these refer to it. -/
theorem WellFormed.addGroupJoin (h : ctx.WellFormed) {group : GroupId} {parent child : SourceId}
    {conditions : List ConditionId} {join : Catalog.Join} {id : GroupJoinId} (hg : ctx.Has group) (hp : ctx.Has parent)
    (hc : ctx.Has child) (hok : ctx.addGroupJoin group parent child conditions join = .ok (id, ctx')) :
    ctx'.WellFormed := by
  by_cases hj : ctx.joins join parent child = true
  · rw [addGroupJoin_eq hj] at hok
    simp only [Except.ok.injEq, Prod.mk.injEq] at hok
    obtain ⟨rfl, rfl⟩ := hok
    have hins : (ctx.insert .groupJoin { group, parent, child, conditions, join }).2.WellFormed := by
      refine h.insert (by simp) (by simp) ?_
      simp only [EntityKind.references, List.forall_mem_cons]
      exact ⟨hg.insert _, hp.insert _, hc.insert _, by simp⟩
    have hid : (ctx.insert .groupJoin { group, parent, child, conditions, join }).2.Has _ := has_insert_self ctx _
    refine (hins.registerConditions conditions
      (ctx.insert .groupJoin { group, parent, child, conditions, join }).1).of_within ?_
    refine (((within_joinGroup (hg.insert _) (hp.insert _)).trans (within_joinGroup (hg.insert _) (hc.insert _))).trans
      (within_update _ (by simp) (by simp) (hg.insert _) (keepsInside_addJoins ?_))).trans
        (within_update _ (by simp) (by simp) (hc.insert _) (keepsInside_parentJoin hid))
    intro j hj
    rw [List.mem_singleton.1 hj]
    exact hid
  · rw [Context.addGroupJoin, if_neg hj] at hok
    cases hok

end ClusterPlan.Context
