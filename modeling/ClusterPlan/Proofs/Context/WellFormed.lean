import ClusterPlan.Proofs.Context.Entity
import Mathlib.Data.List.Nodup

/-!
# Well-formed contexts

In a well-formed context every reference leads to an entity, and each node stands in the list of its tree exactly once, with
its parent and its children in the same tree. All operations of a context keep it well-formed when they are given references
to entities of the context; none of them touches what it is not given.
-/

namespace ClusterPlan

/-- A node that notes a use differs from what it was in its uses only. -/
theorem TableNode.addUse_eq (n : TableNode) (s : SourceId) : n.addUse s = { n with uses := (n.addUse s).uses } := by
  unfold addUse
  split <;> rfl

/-- After a use was noted a node has it and those that it had. -/
theorem TableNode.mem_addUse {n : TableNode} {s r : SourceId} : r ∈ (n.addUse s).uses ↔ r ∈ n.uses ∨ r = s := by
  unfold addUse
  split
  · rename_i h
    constructor
    · exact Or.inl
    · rintro (hr | rfl)
      · exact hr
      · exact h
  · simp

/-- A use that is there already is not noted again. -/
theorem TableNode.nodup_addUse {n : TableNode} {s : SourceId} (h : n.uses.Nodup) : (n.addUse s).uses.Nodup := by
  unfold addUse
  split
  · exact h
  · rename_i hs
    refine List.nodup_append.2 ⟨h, List.nodup_singleton s, ?_⟩
    intro a ha b hb heq
    rw [heq, List.mem_singleton.1 hb] at ha
    exact hs ha

/-- After a source was added a group has it and those that it had. -/
theorem TableGroup.mem_addTable {g : TableGroup} {s r : SourceId} : r ∈ (g.addTable s).tables ↔ r ∈ g.tables ∨ r = s := by
  unfold addTable
  split
  · rename_i h
    constructor
    · exact Or.inl
    · rintro (hr | rfl)
      · exact hr
      · exact h
  · simp

namespace Context

variable {kind : EntityKind} {ctx ctx' : Context}

/-- All references lead to entities. -/
def Closed (ctx : Context) : Prop := ctx.ClosedUnder fun ref => ctx.Has ref.2

/-- Trees and nodes refer to each other as they should. -/
structure Shaped (ctx : Context) : Prop where
  /-- A node stands in the list of its tree. -/
  listed : ∀ (n : NodeId) x (t : TableTree), ctx.record? n = some x → ctx.record? x.tree = some t → n ∈ t.nodes
  /-- The nodes in the list of a tree have it as their tree. -/
  own : ∀ (t : TreeId) x (n : NodeId) y, ctx.record? t = some x → n ∈ x.nodes → ctx.record? n = some y → y.tree = t
  distinct : ∀ (t : TreeId) x, ctx.record? t = some x → x.nodes.Nodup
  root : ∀ (t : TreeId) x, ctx.record? t = some x → ∀ n ∈ x.root, n ∈ x.nodes
  /-- The parent and the children of a node are in its tree. -/
  kin : ∀ (n : NodeId) x, ctx.record? n = some x → ∀ m ∈ x.parent.toList ++ x.children, ∀ y,
    ctx.record? m = some y → y.tree = x.tree

structure WellFormed (ctx : Context) : Prop where
  closed : ctx.Closed
  shaped : ctx.Shaped

/-! ## References -/

/-- A set that contains exactly the entities is closed in a context exactly if the context is. -/
theorem closed_iff_of_size (h : ∀ kind, (ctx'.arena kind).size = (ctx.arena kind).size) :
    ctx'.Closed ↔ ctx'.ClosedUnder fun ref => ctx.Has ref.2 := by
  have heq : (fun ref : AnyRef => ctx'.Has ref.2) = fun ref => ctx.Has ref.2 := by
    funext ref
    simp only [Has, h]
  rw [Closed, heq]

/-- An update that lets no reference of its entity lead outside lets none lead outside at all. -/
theorem Closed.update (h : ctx.Closed) {r : Ref kind} {f : kind.Record → kind.Record}
    (hf : ∀ x, ctx.record? r = some x → (∀ ref ∈ kind.references x, ctx.Has ref.2) →
      ∀ ref ∈ kind.references (f x), ctx.Has ref.2) : (ctx.update r f).Closed := by
  rw [closed_iff_of_size (size_update ctx r f)]
  exact ClosedUnder.update h fun x hr hx => hf x hx (h r x hr hx)

/-- A new entity may refer to what is in the context, itself included. -/
theorem Closed.insert (h : ctx.Closed) {x : kind.Record}
    (hx : ∀ ref ∈ kind.references x, (ctx.insert kind x).2.Has ref.2) : (ctx.insert kind x).2.Closed := by
  intro kind' r y _ hy ref href
  rcases record?_insert_cases hy with hy | heq
  · exact (h r y (has_of_record? hy) hy ref href).insert x
  · cases heq
    exact hx ref href

/-! ## Trees -/

/-- One context has the trees of another one and its nodes, up to their uses. -/
def SameTrees (ctx ctx' : Context) : Prop :=
  (∀ t : TreeId, ctx'.record? t = ctx.record? t) ∧
    ∀ (n : NodeId) y, ctx'.record? n = some y → ∃ x : TableNode, ctx.record? n = some x ∧ y = { x with uses := y.uses }

theorem SameTrees.refl (ctx : Context) : ctx.SameTrees ctx :=
  ⟨fun _ => rfl, fun _ y hy => ⟨y, hy, rfl⟩⟩

theorem SameTrees.trans {ctx₁ ctx₂ ctx₃ : Context} (h : ctx₁.SameTrees ctx₂) (h' : ctx₂.SameTrees ctx₃) :
    ctx₁.SameTrees ctx₃ := by
  refine ⟨fun t => (h'.1 t).trans (h.1 t), ?_⟩
  intro n z hz
  obtain ⟨y, hy, hzy⟩ := h'.2 n z hz
  obtain ⟨x, hx, hyx⟩ := h.2 n y hy
  exact ⟨x, hx, by rw [hzy, hyx]⟩

/-- Entities of other kinds can change without any change to the trees. -/
theorem sameTrees_withArena (ctx : Context) (a : Arena kind kind.Record) (ht : kind ≠ .tree) (hn : kind ≠ .node) :
    ctx.SameTrees (ctx.withArena kind a) := by
  refine ⟨fun t => record?_withArena_of_ne ctx a ht.symm t, ?_⟩
  intro n y hy
  rw [record?_withArena_of_ne ctx a hn.symm] at hy
  exact ⟨y, hy, rfl⟩

/-- Noting a use does not change the trees. -/
theorem sameTrees_addUse (ctx : Context) (n : NodeId) (s : SourceId) :
    ctx.SameTrees (ctx.update n (·.addUse s)) := by
  refine ⟨fun t => record?_update_of_ne _ (by simp), ?_⟩
  intro m y hy
  rcases record?_update_cases hy with ⟨-, hy⟩ | ⟨x, hx, heq⟩
  · exact ⟨y, hy, rfl⟩
  · cases heq
    exact ⟨x, hx, x.addUse_eq s⟩

/-- The uses of the nodes after one of them noted a use. -/
theorem record?_addUse {n b : NodeId} {s : SourceId} {z : TableNode} (hz : (ctx.update n (·.addUse s)).record? b = some z) :
    ∃ y : TableNode, ctx.record? b = some y ∧ (y.uses.Nodup → z.uses.Nodup) ∧
      ∀ r, r ∈ z.uses ↔ r ∈ y.uses ∨ r = s ∧ b = n := by
  rcases record?_update_cases hz with ⟨hne, hz⟩ | ⟨y, hy, heq⟩
  · have hne' : b ≠ n := by simpa using hne
    exact ⟨z, hz, id, by simp [hne']⟩
  · cases heq
    exact ⟨y, hy, TableNode.nodup_addUse, by simp [TableNode.mem_addUse]⟩

/-- The shape of the trees does not depend on the uses. -/
theorem Shaped.of_sameTrees (h : ctx.Shaped) (hs : ctx.SameTrees ctx') : ctx'.Shaped := by
  obtain ⟨ht, hn⟩ := hs
  constructor
  case listed =>
    intro n y t hy hyt
    obtain ⟨x, hx, heq⟩ := hn n y hy
    rw [ht, heq] at hyt
    exact h.listed n x t hx hyt
  case own =>
    intro t x n y hx hmem hy
    obtain ⟨z, hz, heq⟩ := hn n y hy
    rw [heq]
    exact h.own t x n z (by rwa [ht] at hx) hmem hz
  case distinct =>
    intro t x hx
    exact h.distinct t x (by rwa [ht] at hx)
  case root =>
    intro t x hx
    exact h.root t x (by rwa [ht] at hx)
  case kin =>
    intro n y hy m hm z hz
    obtain ⟨x, hx, heq⟩ := hn n y hy
    obtain ⟨w, hw, heq'⟩ := hn m z hz
    rw [heq] at hm
    rw [heq, heq']
    exact h.kin n x hx m hm w hw

/-! ## Nodes of a well-formed context -/

namespace WellFormed

variable {n m : NodeId} {x : TableNode} {tree : TreeId} {t : TableTree}

/-- The tree that a node names is in the context. -/
theorem has_tree (h : ctx.WellFormed) (hx : ctx.record? n = some x) : ctx.Has x.tree :=
  h.closed n x (has_of_record? hx) hx ⟨.tree, x.tree⟩ (by simp [EntityKind.references])

/-- The nodes that a tree lists are in the context. -/
theorem has_node (h : ctx.WellFormed) (ht : ctx.record? tree = some t) (hn : n ∈ t.nodes) : ctx.Has n :=
  h.closed tree t (has_of_record? ht) ht ⟨.node, n⟩ (by simp [EntityKind.references, hn])

/-- The parent and the children of a node are in the context. -/
theorem has_of_kin (h : ctx.WellFormed) (hx : ctx.record? n = some x) (hm : m ∈ x.parent.toList ++ x.children) :
    ctx.Has m := by
  refine h.closed n x (has_of_record? hx) hx ⟨.node, m⟩ ?_
  simp only [EntityKind.references, List.mem_cons, List.mem_append, List.mem_map] at hm ⊢
  exact Or.inr (Or.inl ⟨m, hm, rfl⟩)

/-- The parent and the children of a node of a tree are nodes of the tree. -/
theorem mem_nodes_of_kin (h : ctx.WellFormed) (ht : ctx.record? tree = some t) (hn : n ∈ t.nodes) (hx : ctx.record? n = some x)
    (hm : m ∈ x.parent.toList ++ x.children) : m ∈ t.nodes := by
  obtain ⟨y, hy⟩ := exists_record? (h.has_of_kin hx hm)
  have htree : y.tree = tree := (h.shaped.kin n x hx m hm y hy).trans (h.shaped.own tree t n x ht hn hx)
  exact h.shaped.listed m y t hy (by rwa [htree])

/-- A node that a tree lists is where its reference leads. -/
theorem record?_get (h : ctx.WellFormed) (ht : ctx.record? tree = some t) (hn : n ∈ t.nodes) :
    ctx.record? n = some (ctx.nodes.get n) := by
  obtain ⟨x, hx⟩ := exists_record? (h.has_node ht hn)
  have hget : ctx.nodes.get n = x := Arena.get_of_get? _ hx
  rw [hget, hx]

/-- A node notes a use. -/
theorem addUse (h : ctx.WellFormed) {s : SourceId} (hs : ctx.Has s) : (ctx.update n (·.addUse s)).WellFormed := by
  refine ⟨Closed.update h.closed ?_, h.shaped.of_sameTrees (sameTrees_addUse ctx n s)⟩
  intro x _ hx
  rw [TableNode.addUse_eq]
  simp only [EntityKind.references, List.forall_mem_cons, List.forall_mem_append, List.forall_mem_map] at hx ⊢
  refine ⟨hx.1, hx.2.1, ?_⟩
  intro r hr
  rcases TableNode.mem_addUse.1 hr with hr | rfl
  · exact hx.2.2 r hr
  · exact hs

end WellFormed

/-! ## The operations as insertions and updates -/

theorem addTree_eq (ctx : Context) (group : Option Catalog.Group) : ctx.addTree group = ctx.insert .tree { group } := rfl

theorem addHashTable_eq (ctx : Context) (t : HashTable) : ctx.addHashTable t = ctx.insert .hashTable t := rfl

theorem addBloomFilter_eq (ctx : Context) (f : BloomFilter) : ctx.addBloomFilter f = ctx.insert .bloomFilter f := rfl

theorem addKeyJoin_eq (ctx : Context) (parent child : SourceId) (conditions : List ConditionId)
    (foreignKey : Catalog.ForeignKey) :
    ctx.addKeyJoin parent child conditions foreignKey = ctx.insert .keyJoin { parent, child, conditions, foreignKey } :=
  rfl

/-- Adding a source inserts it and notes it on its node. -/
theorem addSource_eq (ctx : Context) (node : NodeId) (name : String) (required : Bool) :
    ctx.addSource node name required =
      let (id, ctx) := ctx.insert .source { node, name, required }
      (id, ctx.update node (·.addUse id)) :=
  rfl

/-- Requiring a source is an update of it. -/
theorem setRequired_eq (ctx : Context) (s : SourceId) (required : Bool) :
    ctx.setRequired s required = ctx.update s fun x => { x with required } :=
  rfl

/-- Adding a group inserts it and tells its first source. -/
theorem addGroup_eq (ctx : Context) (first : SourceId) :
    ctx.addGroup first =
      let (id, ctx) := ctx.insert .group { tables := [first] }
      (id, ctx.update first fun s => { s with group := some id }) :=
  rfl

/-- Joining a group is an update of the group and one of the source. -/
theorem joinGroup_eq (ctx : Context) (group : GroupId) (s : SourceId) :
    ctx.joinGroup group s = (ctx.update group (·.addTable s)).update s fun x => { x with group := some group } :=
  rfl

/-- A group join that follows the hierarchy of the tables. -/
theorem addGroupJoin_eq {ctx : Context} {join : Catalog.Join} {parent child : SourceId}
    (h : ctx.joins join parent child = true) (group : GroupId) (conditions : List ConditionId) :
    ctx.addGroupJoin group parent child conditions join =
      let (id, ctx) := ctx.insert .groupJoin { group, parent, child, conditions, join }
      let ctx := ((ctx.registerConditions conditions id).joinGroup group parent).joinGroup group child
      .ok (id, (ctx.update group fun g => { g with joins := g.joins ++ [id] }).update child fun s =>
        { s with parentJoin := some id }) := by
  rw [addGroupJoin, if_pos h]
  rfl

/-- Rejecting a join that is not rejected is an update of the join, of its group and of its child. -/
theorem rejectGroupJoin_eq (ctx : Context) (id : GroupJoinId) :
    ctx.rejectGroupJoin id =
      let j := ctx.groupJoins.get id
      if j.rejected then ctx
      else ((ctx.update id fun j => { j with rejected := true }).update j.group fun g =>
        { g with joins := g.joins.filter (· != id) }).update j.child fun s =>
          if s.parentJoin = some id then { s with parentJoin := none } else s :=
  rfl

/-- Updates of entities of one kind, one after the other, are changes to the arena of this kind. -/
theorem foldl_update_eq (ctx : Context) (rs : List (Ref kind)) (f : kind.Record → kind.Record) :
    rs.foldl (fun ctx r => ctx.update r f) ctx =
      ctx.withArena kind (rs.foldl (fun a r => a.modify r f) (ctx.arena kind)) := by
  induction rs generalizing ctx with
  | nil => cases kind <;> rfl
  | cons r rs ih =>
    rw [List.foldl_cons, ih, List.foldl_cons, update, arena_withArena]
    cases kind <;> rfl

/-- Merging is a series of updates of one kind after the other. -/
theorem mergeGroups_eq (ctx : Context) (into other : GroupId) :
    ctx.mergeGroups into other =
      let g := ctx.groups.get other
      if into = other then ctx
      else (g.joins.foldl (fun ctx j => ctx.update j fun x => { x with group := into })
        (g.tables.foldl (fun ctx s => ctx.update s fun x => { x with group := some into })
          (ctx.update other fun _ => { mergedInto := some into }))).update into fun target =>
            let target := g.tables.foldl TableGroup.addTable target
            { target with joins := target.joins ++ g.joins } := by
  simp only [foldl_update_eq]
  rfl

end Context

end ClusterPlan
