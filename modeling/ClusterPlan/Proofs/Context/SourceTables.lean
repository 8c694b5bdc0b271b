import ClusterPlan.Proofs.Context.GroupEdits
import ClusterPlan.Proofs.Context.Placing

/-!
# The tables that sources use

A source uses the table of the node that it is placed on. As the node of a source and the table of a node never change, a
source keeps its table (`KeepsTables`).
-/

namespace ClusterPlan

/-- A use that is noted on a node leaves its table. -/
@[simp] theorem TableNode.table_addUse (n : TableNode) (s : SourceId) : (n.addUse s).table = n.table := by
  rw [addUse_eq]

namespace Context

variable {ctx ctx' : Context} {T : Catalog.Table → Prop} {s : SourceId}

/-- The table of a source is that of its node. -/
theorem tableOf_of_record? {x : TableSource} {n : TableNode} (hx : ctx.record? s = some x)
    (hn : ctx.record? x.node = some n) : ctx.tableOf s = n.table := by
  have hsource : ctx.sources.get s = x := Arena.get_of_get? _ hx
  have hnode : ctx.nodes.get x.node = n := Arena.get_of_get? _ hn
  rw [tableOf, hsource, hnode]

/-- The place of a source. -/
theorem WellFormed.exists_node (h : ctx.WellFormed) {x : TableSource} (hx : ctx.record? s = some x) :
    ∃ n, ctx.record? x.node = some n :=
  exists_record? (h.closed s x (has_of_record? hx) hx ⟨.node, x.node⟩ (by simp [EntityKind.references]))

/-- The tables of all nodes are of a set. -/
def TablesIn (T : Catalog.Table → Prop) (ctx : Context) : Prop :=
  ∀ (n : NodeId) x, ctx.record? n = some x → T x.table

instance [DecidablePred T] (ctx : Context) : Decidable (ctx.TablesIn T) :=
  decidable_of_iff' (∀ x ∈ ctx.nodes.items, T x.table) ctx.nodes.forall_get?_iff

/-- The table of a source is of the set that the tables of all nodes are of. -/
theorem TablesIn.tableOf (h : ctx.TablesIn T) (hwf : ctx.WellFormed) (hs : ctx.Has s) : T (ctx.tableOf s) := by
  obtain ⟨x, hx⟩ := exists_record? hs
  obtain ⟨n, hn⟩ := hwf.exists_node hx
  rw [tableOf_of_record? hx hn]
  exact h x.node n hn

/-! ## Tables are kept -/

/-- The nodes of one context are in another one with their tables, and the sources with their nodes. -/
structure KeepsTables (ctx ctx' : Context) : Prop where
  nodes : ∀ (n : NodeId) x, ctx.record? n = some x → ∃ y : TableNode, ctx'.record? n = some y ∧ y.table = x.table
  sources : ∀ (s : SourceId) x, ctx.record? s = some x → ∃ y : TableSource, ctx'.record? s = some y ∧ y.node = x.node

theorem KeepsTables.refl (ctx : Context) : ctx.KeepsTables ctx := ⟨fun _ x hx => ⟨x, hx, rfl⟩, fun _ x hx => ⟨x, hx, rfl⟩⟩

theorem KeepsTables.trans {ctx₁ ctx₂ ctx₃ : Context} (h : ctx₁.KeepsTables ctx₂) (h' : ctx₂.KeepsTables ctx₃) :
    ctx₁.KeepsTables ctx₃ where
  nodes n x hx := by
    obtain ⟨y, hy, hyx⟩ := h.nodes n x hx
    obtain ⟨z, hz, hzy⟩ := h'.nodes n y hy
    exact ⟨z, hz, hzy.trans hyx⟩
  sources s x hx := by
    obtain ⟨y, hy, hyx⟩ := h.sources s x hx
    obtain ⟨z, hz, hzy⟩ := h'.sources s y hy
    exact ⟨z, hz, hzy.trans hyx⟩

/-- Where nodes keep their tables and sources their nodes, sources keep their tables. -/
theorem KeepsTables.tableOf (h : ctx.KeepsTables ctx') (hwf : ctx.WellFormed) (hs : ctx.Has s) :
    ctx'.tableOf s = ctx.tableOf s := by
  obtain ⟨x, hx⟩ := exists_record? hs
  obtain ⟨n, hn⟩ := hwf.exists_node hx
  obtain ⟨y, hy, hnode⟩ := h.sources s x hx
  obtain ⟨m, hm, htable⟩ := h.nodes x.node n hn
  rw [tableOf_of_record? hx hn, tableOf_of_record? hy (hnode ▸ hm), htable]

/-- Changes that leave all places leave the tables of sources. -/
theorem SamePlaces.keepsTables (h : ctx.SamePlaces ctx') : ctx.KeepsTables ctx' where
  nodes n x hx := ⟨x, (h.nodes n).trans hx, rfl⟩
  sources s x hx := by
    have hplace := h.sources s
    rw [hx] at hplace
    exact Option.map_eq_some_iff.1 hplace

/-- All entities are as they were. -/
theorem keepsTables_of_frame (h : ∀ ⦃kind : EntityKind⦄ (r : Ref kind), ctx.Has r → ctx'.record? r = ctx.record? r) :
    ctx.KeepsTables ctx' where
  nodes n x hx := ⟨x, (h n (has_of_record? hx)).trans hx, rfl⟩
  sources s x hx := ⟨x, (h s (has_of_record? hx)).trans hx, rfl⟩

/-- A new tree changes the table of no source. -/
theorem keepsTables_addTree (ctx : Context) (group : Option Catalog.Group) : ctx.KeepsTables (ctx.addTree group).2 :=
  keepsTables_of_frame fun _ _ hr => record?_insert_of_has _ hr

/-- A new source changes the table of no other source. -/
theorem keepsTables_addSource (ctx : Context) (n : NodeId) (name : String) (required : Bool) :
    ctx.KeepsTables (ctx.addSource n name required).2 where
  nodes m x hx := by
    rw [addSource_eq]
    dsimp only
    rw [record?_update, record?_insert_of_has _ (has_of_record? hx), hx]
    refine ⟨_, rfl, ?_⟩
    split
    · exact x.table_addUse _
    · rfl
  sources s x hx := by
    rw [addSource_eq]
    dsimp only
    rw [record?_update_of_kind _ _ _ (by simp), record?_insert_of_has _ (has_of_record? hx)]
    exact ⟨x, hx, rfl⟩

variable {tree : TreeId} {table : Catalog.Table} {parent : Option NodeId}

/-- A new node changes the table of no source. -/
theorem keepsTables_addNode (tree : TreeId) (table : Catalog.Table) (hp : ∀ p ∈ parent, ctx.Has p) :
    ctx.KeepsTables (ctx.addNode tree table parent).2 where
  nodes n x hx := by
    have hn := has_of_record? hx
    have hadded : (ctx.addNode tree table parent).2.Has n := has_addNode hn
    obtain ⟨y, hy⟩ := exists_record? hadded
    have hold : ctx.nodes.get n = x := Arena.get_of_get? _ hx
    have hnew : (ctx.addNode tree table parent).2.nodes.get n = y := Arena.get_of_get? _ hy
    refine ⟨y, hy, ?_⟩
    rw [← hold, ← hnew, get_addNode_of_has tree table hp hn]
    split <;> rfl
  sources s x hx := ⟨x, (record?_source_addNode s).trans hx, rfl⟩

/-- Looking for the node of a table changes the table of no source. -/
theorem WellFormed.keepsTables_nodeFor (h : ctx.WellFormed) (ht : ctx.Has tree) (table : Catalog.Table) :
    ctx.KeepsTables (ctx.nodeFor tree table).2 := by
  induction table with
  | root info =>
    unfold Context.nodeFor
    split
    · exact .refl ctx
    · exact keepsTables_addNode tree _ nofun
  | child info key above ih =>
    unfold Context.nodeFor
    split
    · exact .refl ctx
    · refine ih.trans (keepsTables_addNode tree _ fun p hp => ?_)
      obtain rfl : (ctx.nodeFor tree above).1 = p := Option.some.inj hp
      exact (h.nodeFor ht above).2.has

end Context

end ClusterPlan
