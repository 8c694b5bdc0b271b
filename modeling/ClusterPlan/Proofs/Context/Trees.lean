import ClusterPlan.Proofs.Context.Operations

/-!
# New trees, nodes and uses

A node is added under its parent and to the list of its tree in one go, so that the trees keep their shape.
-/

namespace ClusterPlan.Context

variable {kind : EntityKind} {ctx : Context}

/-- A new tree refers to nothing. -/
theorem WellFormed.addTree (h : ctx.WellFormed) (group : Option Catalog.Group) : (ctx.addTree group).2.WellFormed := by
  rw [addTree_eq]
  have hnode : ∀ (n : NodeId) x, (ctx.insert .tree { group }).2.record? n = some x → ctx.record? n = some x := by
    intro n x hx
    rcases record?_insert_cases hx with hx | heq
    · exact hx
    · cases heq
  have htree : ∀ (t : TreeId) x, (ctx.insert .tree { group }).2.record? t = some x →
      ctx.record? t = some x ∨ t = (ctx.insert .tree { group }).1 ∧ x = { group } := by
    intro t x hx
    rcases record?_insert_cases hx with hx | heq
    · exact Or.inl hx
    · cases heq
      exact Or.inr ⟨rfl, rfl⟩
  refine
    { closed := Closed.insert h.closed (by simp [EntityKind.references])
      shaped := { listed := ?listed, own := ?own, distinct := ?distinct, root := ?root, kin := ?kin } }
  case listed =>
    intro n x t hx ht
    have hx := hnode n x hx
    have hhas : ctx.Has x.tree := h.closed n x (has_of_record? hx) hx ⟨.tree, x.tree⟩ (by simp [EntityKind.references])
    rw [record?_insert_of_has _ hhas] at ht
    exact h.shaped.listed n x t hx ht
  case own =>
    intro t x n y hx hn hy
    rcases htree t x hx with hx | ⟨-, rfl⟩
    · exact h.shaped.own t x n y hx hn (hnode n y hy)
    · cases hn
  case distinct =>
    intro t x hx
    rcases htree t x hx with hx | ⟨-, rfl⟩
    · exact h.shaped.distinct t x hx
    · exact List.nodup_nil
  case root =>
    intro t x hx n hn
    rcases htree t x hx with hx | ⟨-, rfl⟩
    · exact h.shaped.root t x hx n hn
    · cases hn
  case kin =>
    intro n x hx m hm y hy
    exact h.shaped.kin n x (hnode n x hx) m hm y (hnode m y hy)

/-- A new source refers to its node, and the node to it. -/
theorem WellFormed.addSource (h : ctx.WellFormed) {n : NodeId} (hn : ctx.Has n) (name : String) (required : Bool) :
    (ctx.addSource n name required).2.WellFormed := by
  rw [addSource_eq]
  have hins : (ctx.insert .source { node := n, name, required }).2.WellFormed := by
    refine h.insert (by simp) (by simp) ?_
    simp only [EntityKind.references, List.forall_mem_cons]
    exact ⟨hn.insert _, by simp⟩
  exact hins.addUse (has_insert_self ctx _)

/-! ## Nodes -/

/-- The children after an insertion are those before and the new one, whatever place it takes. -/
theorem mem_insertChild {ctx : Context} {n m : NodeId} {ordinal : UInt32} {siblings : List NodeId} :
    m ∈ ctx.insertChild n ordinal siblings ↔ m = n ∨ m ∈ siblings := by
  rw [insertChild, List.mem_append, List.mem_cons, or_left_comm, ← List.mem_append, List.takeWhile_append_dropWhile]

/-- What adding a node does to the tree that it is added to. -/
def listNode (id : NodeId) (parent : Option NodeId) (t : TableTree) : TableTree :=
  { t with root := if parent.isNone then some id else t.root, nodes := t.nodes ++ [id] }

/-- What adding a node does to its parent. -/
def adopt (ctx : Context) (id : NodeId) (ordinal : UInt32) : Option NodeId → Context
  | some p => ctx.update p fun n => { n with children := ctx.insertChild id ordinal n.children }
  | none => ctx

/-- Adding a node inserts it, makes it a child of its parent and lists it in its tree. -/
theorem addNode_eq (ctx : Context) (tree : TreeId) (table : Catalog.Table) (parent : Option NodeId) :
    ctx.addNode tree table parent =
      ((ctx.insert .node { tree, table, parent }).1,
        ((ctx.insert .node { tree, table, parent }).2.adopt (ctx.insert .node { tree, table, parent }).1 table.ordinal
          parent).update tree (listNode (ctx.insert .node { tree, table, parent }).1 parent)) := by
  cases parent <;> rfl

variable {tree : TreeId} {table : Catalog.Table} {parent : Option NodeId} {id : NodeId} {ordinal : UInt32}

/-- A parent that gets a child is no new entity. -/
theorem size_adopt (kind : EntityKind) : ((ctx.adopt id ordinal parent).arena kind).size = (ctx.arena kind).size := by
  cases parent <;> simp [adopt]

/-- Trees are unchanged when a node gets a child. -/
theorem record?_tree_adopt (t : TreeId) : (ctx.adopt id ordinal parent).record? t = ctx.record? t := by
  cases parent with
  | none => rfl
  | some p => exact record?_update_of_ne _ (by simp)

/-- A node of the context can become a child without a reference leading outside. -/
theorem closed_adopt (h : ctx.Closed) (hid : ctx.Has id) : (ctx.adopt id ordinal parent).Closed := by
  cases parent with
  | none => exact h
  | some p =>
    refine Closed.update h ?_
    intro x _ hx
    simp only [EntityKind.references, List.forall_mem_cons, List.forall_mem_append, List.forall_mem_map,
      mem_insertChild] at hx ⊢
    refine ⟨hx.1, ⟨hx.2.1.1, ?_⟩, hx.2.2⟩
    rintro m (rfl | hm)
    · exact hid
    · exact hx.2.1.2 m hm

/-- Only the new node is added. -/
theorem size_addNode (kind : EntityKind) :
    ((ctx.addNode tree table parent).2.arena kind).size =
      ((ctx.insert .node { tree, table, parent }).2.arena kind).size := by
  rw [addNode_eq, size_update, size_adopt]

/-- What was in the context is in it after a node was added. -/
theorem has_addNode {r : Ref kind} (hr : ctx.Has r) : (ctx.addNode tree table parent).2.Has r := by
  rw [Has, size_addNode]
  exact hr.insert _

/-- The trees after a node was added. -/
theorem record?_tree_addNode {t : TreeId} {z : TableTree} (h : (ctx.addNode tree table parent).2.record? t = some z) :
    t ≠ tree ∧ ctx.record? t = some z ∨
      t = tree ∧ ∃ w, ctx.record? t = some w ∧ z = listNode (ctx.addNode tree table parent).1 parent w := by
  rw [addNode_eq] at h ⊢
  have hbefore : ∀ {t : TreeId} {w : TableTree}, ((ctx.insert .node { tree, table, parent }).2.adopt
      (ctx.insert .node { tree, table, parent }).1 table.ordinal parent).record? t = some w → ctx.record? t = some w := by
    intro t w hw
    rw [record?_tree_adopt] at hw
    rcases record?_insert_cases hw with hw | heq
    · exact hw
    · cases heq
  rcases record?_update_cases h with ⟨hne, hz⟩ | ⟨w, hw, heq⟩
  · exact Or.inl ⟨by simpa using hne, hbefore hz⟩
  · cases heq
    exact Or.inr ⟨rfl, w, hbefore hw, rfl⟩

/-- The nodes after a node was added. -/
theorem record?_node_addNode (hp : ∀ p ∈ parent, ctx.Has p) {n : NodeId} {y : TableNode}
    (h : (ctx.addNode tree table parent).2.record? n = some y) :
    n = (ctx.addNode tree table parent).1 ∧ y = { tree, table, parent } ∨
      ∃ x, ctx.record? n = some x ∧ y.tree = x.tree ∧ y.parent = x.parent ∧ y.uses = x.uses ∧
        ∀ m ∈ y.children, m ∈ x.children ∨ m = (ctx.addNode tree table parent).1 ∧ parent = some n := by
  rw [addNode_eq] at h ⊢
  replace h := (record?_update_of_ne _ (by simp)).symm.trans h
  cases parent with
  | none =>
    rcases record?_insert_cases h with h | heq
    · exact Or.inr ⟨y, h, rfl, rfl, rfl, fun m hm => Or.inl hm⟩
    · cases heq
      exact Or.inl ⟨rfl, rfl⟩
  | some p =>
    rcases record?_update_cases h with ⟨-, h⟩ | ⟨x, hx, heq⟩
    · rcases record?_insert_cases h with h | heq
      · exact Or.inr ⟨y, h, rfl, rfl, rfl, fun m hm => Or.inl hm⟩
      · cases heq
        exact Or.inl ⟨rfl, rfl⟩
    · cases heq
      replace hx := (record?_insert_of_has _ (hp _ rfl)).symm.trans hx
      refine Or.inr ⟨x, hx, rfl, rfl, rfl, ?_⟩
      intro m hm
      rcases mem_insertChild.1 hm with rfl | hm
      · exact Or.inr ⟨rfl, rfl⟩
      · exact Or.inl hm

/-- The new node has its tree, table and parent, and no children or uses. -/
theorem record?_addNode_self (hp : ∀ p ∈ parent, ctx.Has p) :
    (ctx.addNode tree table parent).2.record? (ctx.addNode tree table parent).1 = some { tree, table, parent } := by
  rw [addNode_eq]
  refine (record?_update_of_ne _ (by simp)).trans ?_
  cases parent with
  | none => exact record?_insert_self ctx _
  | some p =>
    refine (record?_update_of_ne _ ?_).trans (record?_insert_self ctx _)
    intro heq
    simp only [Sigma.mk.injEq, heq_eq_eq, true_and] at heq
    have hlt := hp p rfl
    rw [← heq] at hlt
    exact Nat.lt_irrefl _ hlt

/-- Adding a node to a tree of the context, below a node of the context, lets no reference lead outside. -/
theorem closed_addNode (h : ctx.Closed) (ht : ctx.Has tree) (hp : ∀ p ∈ parent, ctx.Has p) :
    (ctx.addNode tree table parent).2.Closed := by
  rw [addNode_eq]
  dsimp only
  have hid : (ctx.insert .node { tree, table, parent }).2.Has _ := has_insert_self ctx _
  have hins : (ctx.insert .node { tree, table, parent }).2.Closed := by
    refine Closed.insert h ?_
    simp only [EntityKind.references, List.forall_mem_cons, List.forall_mem_append, List.forall_mem_map]
    exact ⟨ht.insert _, ⟨fun p hp' => (hp p (by simpa using hp')).insert _, by simp⟩, by simp⟩
  refine Closed.update (closed_adopt hins hid) ?_
  intro w _ hw
  simp only [listNode, EntityKind.references, List.forall_mem_append, List.forall_mem_map, List.forall_mem_cons, Has,
    size_adopt] at hw ⊢
  refine ⟨?_, hw.2, hid, by simp⟩
  intro n hn
  split at hn
  · rw [Option.mem_toList] at hn
    exact Option.some.inj hn ▸ hid
  · exact hw.1 n hn

/-- The new node is none of those that were there. -/
theorem ne_addNode_of_has {n : NodeId} (hn : ctx.Has n) : n ≠ (ctx.addNode tree table parent).1 := by
  rintro rfl
  rw [addNode_eq] at hn
  exact Nat.lt_irrefl _ hn

/-- A node that was there before stays in its tree. -/
theorem tree_addNode (hp : ∀ p ∈ parent, ctx.Has p) {n : NodeId} {y : TableNode} (hn : ctx.Has n)
    (hy : (ctx.addNode tree table parent).2.record? n = some y) : ∃ x, ctx.record? n = some x ∧ y.tree = x.tree := by
  rcases record?_node_addNode hp hy with ⟨heq, -⟩ | ⟨x, hx, htree, -, -, -⟩
  · exact absurd heq (ne_addNode_of_has hn)
  · exact ⟨x, hx, htree⟩

/-- The node of a table is in the tree that it was asked for. -/
def NodeIn (ctx : Context) (n : NodeId) (tree : TreeId) : Prop := ∃ y : TableNode, ctx.record? n = some y ∧ y.tree = tree

/-- A node in a tree is in the context. -/
theorem NodeIn.has {n : NodeId} (h : ctx.NodeIn n tree) : ctx.Has n := by
  obtain ⟨y, hy, -⟩ := h
  exact has_of_record? hy

/-- The parent and the children of a node are in its tree after a node was added. -/
theorem kin_addNode (h : ctx.WellFormed) (hp : ∀ p ∈ parent, ctx.NodeIn p tree) {n m : NodeId} {x y : TableNode}
    (hx : (ctx.addNode tree table parent).2.record? n = some x) (hm : m ∈ x.parent.toList ++ x.children)
    (hy : (ctx.addNode tree table parent).2.record? m = some y) : y.tree = x.tree := by
  have hphas : ∀ p ∈ parent, ctx.Has p := fun p hp' => (hp p hp').has
  rcases record?_node_addNode hphas hx with ⟨rfl, rfl⟩ | ⟨x', hx', htree, hparent, -, hchildren⟩
  · obtain ⟨p, hp', hptree⟩ := hp m (by simpa using hm)
    obtain ⟨y', hy', htree⟩ := tree_addNode hphas (has_of_record? hp') hy
    rw [htree, ← hptree, Option.some.inj (hp'.symm.trans hy')]
  · have hkin : m ∈ x'.parent.toList ++ x'.children → y.tree = x.tree := by
      intro hm'
      obtain ⟨y', hy', htree'⟩ := tree_addNode hphas (h.has_of_kin hx' hm') hy
      rw [htree, htree']
      exact h.shaped.kin n x' hx' m hm' y' hy'
    rw [hparent] at hm
    rcases List.mem_append.1 hm with hm | hm
    · exact hkin (List.mem_append_left _ hm)
    · rcases hchildren m hm with hm | ⟨rfl, rfl⟩
      · exact hkin (List.mem_append_right _ hm)
      · obtain ⟨y', hy', hytree⟩ := hp n rfl
        have hself : some { tree, table, parent := some n } = some y := (record?_addNode_self hphas).symm.trans hy
        rw [← Option.some.inj hself, htree, ← hytree, Option.some.inj (hy'.symm.trans hx')]

/-- A node below a node of the same tree, or a node that becomes the root. -/
theorem WellFormed.addNode (h : ctx.WellFormed) (ht : ctx.Has tree) (hp : ∀ p ∈ parent, ctx.NodeIn p tree) :
    (ctx.addNode tree table parent).2.WellFormed := by
  have hphas : ∀ p ∈ parent, ctx.Has p := fun p hp' => (hp p hp').has
  refine
    { closed := closed_addNode h.closed ht hphas
      shaped :=
        { listed := ?listed, own := ?own, distinct := ?distinct, root := ?root
          kin := fun n x hx m hm y hy => kin_addNode h hp hx hm hy } }
  case listed =>
    intro n y t hy hyt
    rcases record?_node_addNode hphas hy with ⟨rfl, rfl⟩ | ⟨x, hx, htree, -, -, -⟩
    · rcases record?_tree_addNode hyt with ⟨hne, -⟩ | ⟨-, w, -, rfl⟩
      · exact absurd rfl hne
      · simp [listNode]
    · rw [htree] at hyt
      rcases record?_tree_addNode hyt with ⟨-, hw⟩ | ⟨-, w, hw, rfl⟩
      · exact h.shaped.listed n x t hx hw
      · exact List.mem_append_left _ (h.shaped.listed n x w hx hw)
  case own =>
    intro t z n y hz hn hy
    rcases record?_node_addNode hphas hy with ⟨rfl, rfl⟩ | ⟨x, hx, htree, -, -, -⟩
    · rcases record?_tree_addNode hz with ⟨-, hz⟩ | ⟨rfl, -⟩
      · exact absurd rfl (ne_addNode_of_has (h.has_node hz hn))
      · rfl
    · rw [htree]
      rcases record?_tree_addNode hz with ⟨-, hz⟩ | ⟨-, w, hw, rfl⟩
      · exact h.shaped.own t z n x hz hn hx
      · rcases List.mem_append.1 hn with hn | hn
        · exact h.shaped.own t w n x hw hn hx
        · exact absurd (List.mem_singleton.1 hn) (ne_addNode_of_has (has_of_record? hx))
  case distinct =>
    intro t z hz
    rcases record?_tree_addNode hz with ⟨-, hz⟩ | ⟨-, w, hw, rfl⟩
    · exact h.shaped.distinct t z hz
    · refine List.nodup_append.2 ⟨h.shaped.distinct t w hw, by simp, ?_⟩
      intro n hn m hm
      rw [List.mem_singleton.1 hm]
      exact ne_addNode_of_has (h.has_node hw hn)
  case root =>
    intro t z hz n hn
    rcases record?_tree_addNode hz with ⟨-, hz⟩ | ⟨-, w, hw, rfl⟩
    · exact h.shaped.root t z hz n hn
    · simp only [listNode] at hn ⊢
      split at hn
      · cases hn
        simp
      · exact List.mem_append_left _ (h.shaped.root t w hw n hn)

/-- The node that is found for a table is in the tree that it was looked for in. -/
theorem nodeIn_of_findNode? (h : ctx.WellFormed) {n : NodeId} (hf : ctx.findNode? tree table = some n) :
    ctx.NodeIn n tree := by
  have hmem := List.mem_of_find?_eq_some hf
  by_cases ht : ctx.Has tree
  · obtain ⟨t, ht'⟩ := exists_record? ht
    have hget : ctx.trees.get tree = t := Arena.get_of_get? _ ht'
    rw [hget] at hmem
    obtain ⟨y, hy⟩ := exists_record? (h.has_node ht' hmem)
    exact ⟨y, hy, h.shaped.own tree t n y ht' hmem hy⟩
  · have hget : ctx.trees.get tree = default := Arena.get_of_size_le _ (Nat.not_lt.1 ht)
    rw [hget] at hmem
    cases hmem

/-- What was in the context is in it after the node of a table was looked for. -/
theorem has_nodeFor {r : Ref kind} (hr : ctx.Has r) (table : Catalog.Table) : (ctx.nodeFor tree table).2.Has r := by
  induction table with
  | root info =>
    unfold nodeFor
    split
    · exact hr
    · exact has_addNode hr
  | child info key parent ih =>
    unfold nodeFor
    split
    · exact hr
    · exact has_addNode ih

/-- Looking for a node, with the nodes above it that are missing. -/
theorem WellFormed.nodeFor (h : ctx.WellFormed) (ht : ctx.Has tree) (table : Catalog.Table) :
    (ctx.nodeFor tree table).2.WellFormed ∧ (ctx.nodeFor tree table).2.NodeIn (ctx.nodeFor tree table).1 tree := by
  induction table with
  | root info =>
    unfold Context.nodeFor
    split
    · rename_i n hn
      exact ⟨h, nodeIn_of_findNode? h hn⟩
    · exact ⟨h.addNode ht nofun, _, record?_addNode_self nofun, rfl⟩
  | child info key parent ih =>
    unfold Context.nodeFor
    split
    · rename_i n hn
      exact ⟨h, nodeIn_of_findNode? h hn⟩
    · obtain ⟨hwf, hin⟩ := ih
      have hp : ∀ p ∈ some (ctx.nodeFor tree parent).1, (ctx.nodeFor tree parent).2.NodeIn p tree := by
        intro p hp
        cases hp
        exact hin
      exact ⟨hwf.addNode (has_nodeFor ht parent) hp, _,
        record?_addNode_self fun p hp' => (hp p hp').has, rfl⟩

end ClusterPlan.Context
