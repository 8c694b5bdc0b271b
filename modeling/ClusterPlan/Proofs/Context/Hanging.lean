import ClusterPlan.Proofs.Catalog.Hierarchy
import ClusterPlan.Proofs.Context.Trees

/-!
# Trees hang together as the tables do

A tree is asked for tables of one hierarchy, in any order. Its nodes then hang below each other as their tables do: each table
has one node, whose parent is the node of the parent table and was made before it, and siblings are in the order of their
ordinals (`TableTree.Hangs`). What a tree is like does not depend on which references its nodes have, as long as the links of
the nodes are these references and the order is the same (`TableTree.Hangs.of_links`).
-/

namespace ClusterPlan

/-- The tables of the nodes of a tree. -/
def TableTree.tables (ctx : Context) (z : TableTree) : List Catalog.Table := z.nodes.map fun n => (ctx.nodes.get n).table

/-- The nodes of a tree hang below each other as their tables do. -/
structure TableTree.Hangs (T : Catalog.Table → Prop) (ctx : Context) (z : TableTree) : Prop where
  tables : ∀ a ∈ z.tables ctx, T a
  unique : (z.tables ctx).Nodup
  hierarchy : ∀ a ∈ z.tables ctx, ∀ b ∈ z.tables ctx, a.SameHierarchy b
  /-- The nodes are in the order in which they were made. -/
  sorted : z.nodes.Pairwise fun n m => n.index < m.index
  root : ∀ n, z.root = some n ↔ n ∈ z.nodes ∧ (ctx.nodes.get n).parent = none
  /-- The parent of a node is the node of the parent table. -/
  above : ∀ n ∈ z.nodes, (ctx.nodes.get n).parent.map (fun p => (ctx.nodes.get p).table) = (ctx.nodes.get n).table.parent?
  parent : ∀ n ∈ z.nodes, ∀ p ∈ (ctx.nodes.get n).parent, p ∈ z.nodes ∧ p.index < n.index
  distinct : ∀ n ∈ z.nodes, (ctx.nodes.get n).children.Nodup
  children : ∀ n ∈ z.nodes, ∀ m, m ∈ (ctx.nodes.get n).children ↔ m ∈ z.nodes ∧ (ctx.nodes.get m).parent = some n
  ordered : ∀ n ∈ z.nodes, (ctx.nodes.get n).children.Pairwise fun a b =>
    (ctx.nodes.get a).table.ordinal ≤ (ctx.nodes.get b).table.ordinal

/-- All trees do. -/
def Context.Hangs (T : Catalog.Table → Prop) (ctx : Context) : Prop :=
  ∀ (t : TreeId) z, ctx.record? t = some z → z.Hangs T ctx

namespace TableTree

variable {T : Catalog.Table → Prop} {ctx ctx' : Context} {z z' : TableTree} {link : NodeId → NodeId}

/-- An empty tree has nothing that could hang in the wrong place. -/
theorem hangs_of_nil (ctx : Context) (hnodes : z.nodes = []) (hroot : z.root = none) : z.Hangs T ctx := by
  constructor <;> simp [tables, hnodes, hroot]

/-- A tree whose nodes are linked as those of another one, in the same order. -/
theorem Hangs.of_links (h : z.Hangs T ctx) (hnodes : z'.nodes = z.nodes.map link) (hroot : z'.root = z.root.map link)
    (hmono : ∀ n ∈ z.nodes, ∀ m ∈ z.nodes, n.index < m.index → (link n).index < (link m).index)
    (hlinked : ∀ n ∈ z.nodes, (ctx'.nodes.get (link n)).table = (ctx.nodes.get n).table ∧
      (ctx'.nodes.get (link n)).parent = (ctx.nodes.get n).parent.map link ∧
      (ctx'.nodes.get (link n)).children = (ctx.nodes.get n).children.map link) : z'.Hangs T ctx' := by
  -- links that keep the order of the nodes keep different nodes different
  have hinj : ∀ n ∈ z.nodes, ∀ m ∈ z.nodes, link n = link m → n = m := by
    intro n hn m hm heq
    rcases Nat.lt_trichotomy n.index m.index with hlt | hsame | hlt
    · exact absurd (congrArg Ref.index heq) (Nat.ne_of_lt (hmono n hn m hm hlt))
    · exact Ref.eq_of_index hsame
    · exact absurd (congrArg Ref.index heq).symm (Nat.ne_of_lt (hmono m hm n hn hlt))
  have hparent : ∀ n ∈ z.nodes, ∀ m ∈ z.nodes,
      (ctx'.nodes.get (link m)).parent = some (link n) ↔ (ctx.nodes.get m).parent = some n := by
    intro n hn m hm
    rw [(hlinked m hm).2.1, Option.map_eq_some_iff]
    constructor
    · rintro ⟨p, hp, heq⟩
      rw [hp, hinj p (h.parent m hm p hp).1 n hn heq]
    · intro hp
      exact ⟨n, hp, rfl⟩
  have htables : z'.tables ctx' = z.tables ctx := by
    rw [TableTree.tables, hnodes, List.map_map]
    exact List.map_congr_left fun n hn => (hlinked n hn).1
  constructor
  case tables =>
    rw [htables]
    exact h.tables
  case unique =>
    rw [htables]
    exact h.unique
  case hierarchy =>
    rw [htables]
    exact h.hierarchy
  case sorted =>
    rw [hnodes, List.pairwise_map]
    exact h.sorted.imp_of_mem fun hn hm hlt => hmono _ hn _ hm hlt
  case root =>
    intro n'
    rw [hroot, hnodes, List.mem_map, Option.map_eq_some_iff]
    constructor
    · rintro ⟨n, hn, rfl⟩
      obtain ⟨hmem, hnone⟩ := (h.root n).1 hn
      refine ⟨⟨n, hmem, rfl⟩, ?_⟩
      rw [(hlinked n hmem).2.1, hnone]
      rfl
    · rintro ⟨⟨n, hn, rfl⟩, hnone⟩
      rw [(hlinked n hn).2.1, Option.map_eq_none_iff] at hnone
      exact ⟨n, (h.root n).2 ⟨hn, hnone⟩, rfl⟩
  case above =>
    simp only [hnodes, List.forall_mem_map]
    intro n hn
    rw [(hlinked n hn).1, (hlinked n hn).2.1, ← h.above n hn, Option.map_map]
    cases hp : (ctx.nodes.get n).parent with
    | none => rfl
    | some p => exact congrArg some (hlinked p (h.parent n hn p hp).1).1
  case parent =>
    simp only [hnodes, List.forall_mem_map]
    intro n hn p' hp'
    rw [(hlinked n hn).2.1] at hp'
    obtain ⟨p, hp, rfl⟩ := Option.map_eq_some_iff.1 hp'
    obtain ⟨hmem, hlt⟩ := h.parent n hn p hp
    exact ⟨List.mem_map_of_mem hmem, hmono p hmem n hn hlt⟩
  case distinct =>
    simp only [hnodes, List.forall_mem_map]
    intro n hn
    rw [(hlinked n hn).2.2]
    refine List.Nodup.map_on (fun a ha b hb heq => ?_) (h.distinct n hn)
    exact hinj a ((h.children n hn a).1 ha).1 b ((h.children n hn b).1 hb).1 heq
  case children =>
    simp only [hnodes, List.forall_mem_map]
    intro n hn m'
    rw [(hlinked n hn).2.2, List.mem_map, List.mem_map]
    constructor
    · rintro ⟨m, hm, rfl⟩
      obtain ⟨hmem, hp⟩ := (h.children n hn m).1 hm
      exact ⟨⟨m, hmem, rfl⟩, (hparent n hn m hmem).2 hp⟩
    · rintro ⟨⟨m, hm, rfl⟩, hp⟩
      exact ⟨m, (h.children n hn m).2 ⟨hm, (hparent n hn m hm).1 hp⟩, rfl⟩
  case ordered =>
    simp only [hnodes, List.forall_mem_map]
    intro n hn
    rw [(hlinked n hn).2.2, List.pairwise_map]
    refine (h.ordered n hn).imp_of_mem fun ha hb hle => ?_
    rwa [(hlinked _ ((h.children n hn _).1 ha).1).1, (hlinked _ ((h.children n hn _).1 hb).1).1]

/-- A tree whose nodes are as they were. -/
theorem Hangs.congr (h : z.Hangs T ctx) (hsame : ∀ n ∈ z.nodes, (ctx'.nodes.get n).table = (ctx.nodes.get n).table ∧
    (ctx'.nodes.get n).parent = (ctx.nodes.get n).parent ∧ (ctx'.nodes.get n).children = (ctx.nodes.get n).children) :
    z.Hangs T ctx' := by
  refine h.of_links (List.map_id _).symm (congrFun Option.map_id _).symm (fun _ _ _ _ hlt => hlt) fun n hn => ?_
  rw [Option.map_id, List.map_id]
  exact hsame n hn

end TableTree

namespace Context

variable {T : Catalog.Table → Prop} {ctx ctx' : Context}

/-- What is said of trees does not depend on the uses of nodes. -/
theorem Hangs.of_sameTrees (h : ctx.Hangs T) (hwf' : ctx'.WellFormed) (hs : ctx.SameTrees ctx') : ctx'.Hangs T := by
  intro t z hz
  refine (h t z ((hs.1 t).symm.trans hz)).congr fun n hn => ?_
  obtain ⟨x, hx, heq⟩ := hs.2 n _ (hwf'.record?_get hz hn)
  have hget : ctx.nodes.get n = x := Arena.get_of_get? _ hx
  rw [heq, hget]
  exact ⟨rfl, rfl, rfl⟩

/-- A new tree is empty, so that the tables keep hanging as they should. -/
theorem Hangs.addTree (h : ctx.Hangs T) (group : Option Catalog.Group) : (ctx.addTree group).2.Hangs T := by
  intro t z hz
  rw [addTree_eq] at hz
  rcases record?_insert_cases hz with hz | heq
  · exact (h t z hz).congr fun n hn => ⟨rfl, rfl, rfl⟩
  · cases heq
    exact TableTree.hangs_of_nil _ rfl rfl

/-! ## A new node -/

variable {tree : TreeId} {table : Catalog.Table} {parent : Option NodeId} {z : TableTree}

/-- The children of a node stay in the order of their ordinals when one is put among them. -/
theorem pairwise_insertChild {n : NodeId} {siblings : List NodeId}
    (h : siblings.Pairwise fun a b => (ctx.nodes.get a).table.ordinal ≤ (ctx.nodes.get b).table.ordinal) :
    (ctx.insertChild n (ctx.nodes.get n).table.ordinal siblings).Pairwise fun a b =>
      (ctx.nodes.get a).table.ordinal ≤ (ctx.nodes.get b).table.ordinal := by
  induction siblings with
  | nil => simp [insertChild]
  | cons c siblings ih =>
    obtain ⟨hc, hs⟩ := List.pairwise_cons.1 h
    by_cases hlt : (ctx.nodes.get n).table.ordinal < (ctx.nodes.get c).table.ordinal
    · have hfirst : ctx.insertChild n (ctx.nodes.get n).table.ordinal (c :: siblings) = n :: c :: siblings := by
        simp [insertChild, hlt]
      rw [hfirst]
      refine List.pairwise_cons.2 ⟨fun b hb => ?_, h⟩
      rcases List.mem_cons.1 hb with rfl | hb
      · exact UInt32.le_of_lt hlt
      · exact UInt32.le_trans (UInt32.le_of_lt hlt) (hc b hb)
    · have hlater : ctx.insertChild n (ctx.nodes.get n).table.ordinal (c :: siblings) =
          c :: ctx.insertChild n (ctx.nodes.get n).table.ordinal siblings := by
        simp [insertChild, hlt]
      rw [hlater]
      refine List.pairwise_cons.2 ⟨fun b hb => ?_, ih hs⟩
      rcases mem_insertChild.1 hb with rfl | hb
      · exact UInt32.not_lt.1 hlt
      · exact hc b hb

/-- Among its siblings a new child takes some place. -/
theorem perm_insertChild (n : NodeId) (ordinal : UInt32) (siblings : List NodeId) :
    (ctx.insertChild n ordinal siblings).Perm (n :: siblings) := by
  rw [insertChild]
  refine List.perm_middle.trans ?_
  rw [List.takeWhile_append_dropWhile]

/-- A node from before, after another one was added. -/
theorem get_addNode_of_has (tree : TreeId) (table : Catalog.Table) (hp : ∀ p ∈ parent, ctx.Has p) {n : NodeId}
    (hn : ctx.Has n) : (ctx.addNode tree table parent).2.nodes.get n =
      if parent = some n then
        { ctx.nodes.get n with
          children := (ctx.insert .node { tree, table, parent }).2.insertChild (ctx.addNode tree table parent).1 table.ordinal
            (ctx.nodes.get n).children }
      else ctx.nodes.get n := by
  obtain ⟨x, hx⟩ := exists_record? hn
  have hget : ctx.nodes.get n = x := Arena.get_of_get? _ hx
  have hins : (ctx.insert .node { tree, table, parent }).2.record? n = some x :=
    (record?_insert_of_has _ hn).trans hx
  rw [hget]
  refine Arena.get_of_get? _ ?_
  show (ctx.addNode tree table parent).2.record? n = _
  rw [addNode_eq]
  refine (record?_update_of_ne _ (by simp)).trans ?_
  cases parent with
  | none => exact hins
  | some p =>
    by_cases heq : p = n
    · subst heq
      rw [if_pos rfl, adopt, record?_update_self, hins]
      rfl
    · rw [if_neg (by simpa using heq), adopt]
      exact (record?_update_of_ne _ (by simpa using Ne.symm heq)).trans hins

/-- A new node has the tree, table and parent that it was added with. -/
theorem get_addNode_self (tree : TreeId) (table : Catalog.Table) (hp : ∀ p ∈ parent, ctx.Has p) :
    (ctx.addNode tree table parent).2.nodes.get (ctx.addNode tree table parent).1 = { tree, table, parent } :=
  Arena.get_of_get? _ (record?_addNode_self hp)

end Context

namespace TableTree

variable {T : Catalog.Table → Prop} {ctx ctx' : Context} {z : TableTree} {table : Catalog.Table} {parent : Option NodeId}
  {id : NodeId}

/-- What changes for a tree when a node is added to it below one of its nodes, or as its root. -/
structure Gains (ctx ctx' : Context) (z : TableTree) (table : Catalog.Table) (parent : Option NodeId) (id : NodeId) : Prop where
  later : ∀ n ∈ z.nodes, n.index < id.index
  newTable : (ctx'.nodes.get id).table = table
  newParent : (ctx'.nodes.get id).parent = parent
  newChildren : (ctx'.nodes.get id).children = []
  same : ∀ n ∈ z.nodes, (ctx'.nodes.get n).table = (ctx.nodes.get n).table ∧
    (ctx'.nodes.get n).parent = (ctx.nodes.get n).parent
  other : ∀ n ∈ z.nodes, parent ≠ some n → (ctx'.nodes.get n).children = (ctx.nodes.get n).children
  adopted : ∀ p ∈ parent, (ctx'.nodes.get p).children.Perm (id :: (ctx.nodes.get p).children)
  ordered : ∀ p ∈ parent, (ctx'.nodes.get p).children.Pairwise fun a b =>
    (ctx'.nodes.get a).table.ordinal ≤ (ctx'.nodes.get b).table.ordinal

/-- A tree that gains a node gains its table at the end. -/
theorem Gains.tables (hg : z.Gains ctx ctx' table parent id) :
    (Context.listNode id parent z).tables ctx' = z.tables ctx ++ [table] := by
  rw [TableTree.tables, Context.listNode, List.map_append, List.map_singleton, hg.newTable]
  exact congrArg (· ++ [table]) (List.map_congr_left fun n hn => (hg.same n hn).1)

/-- The children of a node that was there before. -/
theorem Gains.mem_children (hg : z.Gains ctx ctx' table parent id) {n m : NodeId} (hn : n ∈ z.nodes) :
    m ∈ (ctx'.nodes.get n).children ↔ m ∈ (ctx.nodes.get n).children ∨ m = id ∧ parent = some n := by
  by_cases hpar : parent = some n
  · rw [(hg.adopted n hpar).mem_iff, List.mem_cons, or_comm]
    simp only [hpar, and_true]
  · rw [hg.other n hn hpar]
    simp only [hpar, and_false, or_false]

/-- A tree without a node for the root table of its hierarchy has no root. -/
theorem Hangs.parent_ne_none (h : z.Hangs T ctx) (hnew : table ∉ z.tables ctx)
    (hsame : ∀ a ∈ z.tables ctx, a.SameHierarchy table) (htop : table.parent? = none) :
    ∀ n ∈ z.nodes, (ctx.nodes.get n).parent ≠ none := by
  intro n hn hnone
  have hmem : (ctx.nodes.get n).table ∈ z.tables ctx := List.mem_map_of_mem hn
  have htop' : (ctx.nodes.get n).table.parent? = none := by rw [← h.above n hn, hnone, Option.map_none]
  exact hnew ((hsame _ hmem).eq_of_parent? htop' htop ▸ hmem)

/-- The root is the node without a parent: the new one if there was none before, and else the one that it was. -/
theorem Hangs.root_of_gains (h : z.Hangs T ctx) (hg : z.Gains ctx ctx' table parent id) (hnew : table ∉ z.tables ctx)
    (hsame : ∀ a ∈ z.tables ctx, a.SameHierarchy table)
    (habove : parent.map (fun p => (ctx.nodes.get p).table) = table.parent?) (n : NodeId) :
    (Context.listNode id parent z).root = some n ↔ (n ∈ z.nodes ∨ n = id) ∧ (ctx'.nodes.get n).parent = none := by
  cases hpar : parent with
  | none =>
    have hroot := h.parent_ne_none hnew hsame (by rw [← habove, hpar, Option.map_none])
    constructor
    · rintro heq
      obtain rfl : id = n := Option.some.inj heq
      exact ⟨Or.inr rfl, hg.newParent.trans hpar⟩
    · rintro ⟨hn | rfl, hnone⟩
      · exact absurd ((hg.same n hn).2.symm.trans hnone) (hroot n hn)
      · rfl
  | some p =>
    have hroot : (Context.listNode id (some p) z).root = z.root := rfl
    rw [hroot, h.root]
    constructor
    · rintro ⟨hn, hnone⟩
      exact ⟨Or.inl hn, (hg.same n hn).2.trans hnone⟩
    · rintro ⟨hn | rfl, hnone⟩
      · exact ⟨hn, (hg.same n hn).2.symm.trans hnone⟩
      · rw [hg.newParent, hpar] at hnone
        cases hnone

/-- The new node is for a new table of the hierarchy, and it is below the node of the parent table. -/
theorem Hangs.of_gains (h : z.Hangs T ctx) (hg : z.Gains ctx ctx' table parent id) (hT : T table)
    (hnew : table ∉ z.tables ctx) (hsame : ∀ a ∈ z.tables ctx, a.SameHierarchy table) (hp : ∀ p ∈ parent, p ∈ z.nodes)
    (habove : parent.map (fun p => (ctx.nodes.get p).table) = table.parent?) :
    (Context.listNode id parent z).Hangs T ctx' := by
  have hnodes : (Context.listNode id parent z).nodes = z.nodes ++ [id] := rfl
  have hid : id ∉ z.nodes := fun hmem => Nat.lt_irrefl _ (hg.later id hmem)
  have htables := hg.tables
  -- parents are nodes of the tree, whose tables are as they were
  have hparents : ∀ p : Option NodeId, (∀ m ∈ p, m ∈ z.nodes) →
      p.map (fun m => (ctx'.nodes.get m).table) = p.map fun m => (ctx.nodes.get m).table := by
    intro p hmem
    cases p with
    | none => rfl
    | some m => exact congrArg some (hg.same m (hmem m rfl)).1
  constructor
  case tables =>
    rw [htables, List.forall_mem_append]
    exact ⟨h.tables, by simpa using hT⟩
  case unique =>
    rw [htables]
    refine List.nodup_append.2 ⟨h.unique, List.nodup_singleton table, ?_⟩
    rintro a ha _ hb rfl
    exact hnew (List.mem_singleton.1 hb ▸ ha)
  case hierarchy =>
    rw [htables]
    intro a ha b hb
    rw [List.mem_append, List.mem_singleton] at ha hb
    rcases ha with ha | rfl
    · rcases hb with hb | rfl
      · exact h.hierarchy a ha b hb
      · exact hsame a ha
    · rcases hb with hb | rfl
      · exact Eq.symm (hsame b hb)
      · exact Eq.refl _
  case sorted =>
    rw [hnodes]
    refine List.pairwise_append.2 ⟨h.sorted, List.pairwise_singleton _ _, fun n hn m hm => ?_⟩
    exact List.mem_singleton.1 hm ▸ hg.later n hn
  case root =>
    intro n
    rw [hnodes, List.mem_append, List.mem_singleton]
    exact h.root_of_gains hg hnew hsame habove n
  case above =>
    simp only [hnodes, List.forall_mem_append, List.forall_mem_singleton]
    refine ⟨fun n hn => ?_, ?_⟩
    · rw [(hg.same n hn).1, (hg.same n hn).2, hparents _ fun p hp' => (h.parent n hn p hp').1]
      exact h.above n hn
    · rw [hg.newParent, hg.newTable, hparents _ hp]
      exact habove
  case parent =>
    simp only [hnodes, List.forall_mem_append, List.forall_mem_singleton]
    refine ⟨fun n hn p hp' => ?_, fun p hp' => ?_⟩
    · rw [(hg.same n hn).2] at hp'
      exact ⟨List.mem_append_left _ (h.parent n hn p hp').1, (h.parent n hn p hp').2⟩
    · rw [hg.newParent] at hp'
      exact ⟨List.mem_append_left _ (hp p hp'), hg.later p (hp p hp')⟩
  case distinct =>
    simp only [hnodes, List.forall_mem_append, List.forall_mem_singleton]
    refine ⟨fun n hn => ?_, by simp [hg.newChildren]⟩
    by_cases hpar : parent = some n
    · refine (hg.adopted n hpar).nodup_iff.2 (List.nodup_cons.2 ⟨fun hmem => ?_, h.distinct n hn⟩)
      exact hid ((h.children n hn id).1 hmem).1
    · rw [hg.other n hn hpar]
      exact h.distinct n hn
  case children =>
    simp only [hnodes, List.forall_mem_append, List.forall_mem_singleton]
    refine ⟨fun n hn m => ?_, fun m => ?_⟩
    · rw [hg.mem_children hn, h.children n hn, List.mem_append, List.mem_singleton, or_and_right]
      refine or_congr (and_congr_right fun hm => ?_) (and_congr_right fun hm => ?_)
      · rw [(hg.same m hm).2]
      · rw [hm, hg.newParent]
    · rw [hg.newChildren, List.mem_append, List.mem_singleton]
      refine iff_of_false List.not_mem_nil ?_
      rintro ⟨hm | rfl, hpar⟩
      · rw [(hg.same m hm).2] at hpar
        exact hid (h.parent m hm id hpar).1
      · exact hid (hp m (hg.newParent.symm.trans hpar))
  case ordered =>
    simp only [hnodes, List.forall_mem_append, List.forall_mem_singleton]
    refine ⟨fun n hn => ?_, by simp [hg.newChildren]⟩
    by_cases hpar : parent = some n
    · exact hg.ordered n hpar
    · rw [hg.other n hn hpar]
      refine (h.ordered n hn).imp_of_mem fun ha hb hle => ?_
      rwa [(hg.same _ ((h.children n hn _).1 ha).1).1, (hg.same _ ((h.children n hn _).1 hb).1).1]

end TableTree

namespace Context

variable {T : Catalog.Table → Prop} {ctx : Context} {tree : TreeId} {table : Catalog.Table} {parent : Option NodeId}
  {z : TableTree}

/-- Adding a node below one of the tree, or as its root, is a gain for the tree. -/
theorem gains_addNode (table : Catalog.Table) (h : z.Hangs T ctx) (hwf : ctx.WellFormed) (hz : ctx.record? tree = some z)
    (hp : ∀ p ∈ parent, p ∈ z.nodes) :
    z.Gains ctx (ctx.addNode tree table parent).2 table parent (ctx.addNode tree table parent).1 := by
  have hphas : ∀ p ∈ parent, ctx.Has p := fun p hp' => hwf.has_node hz (hp p hp')
  have hself := get_addNode_self tree table hphas
  have hold : ∀ n ∈ z.nodes, _ := fun n hn => get_addNode_of_has tree table hphas (hwf.has_node hz hn)
  have hsame : ∀ n ∈ z.nodes, ((ctx.addNode tree table parent).2.nodes.get n).table = (ctx.nodes.get n).table ∧
      ((ctx.addNode tree table parent).2.nodes.get n).parent = (ctx.nodes.get n).parent := by
    intro n hn
    rw [hold n hn]
    split <;> exact ⟨rfl, rfl⟩
  have hadopted : ∀ p ∈ parent, ((ctx.addNode tree table parent).2.nodes.get p).children =
      (ctx.insert .node { tree, table, parent }).2.insertChild (ctx.addNode tree table parent).1 table.ordinal
        (ctx.nodes.get p).children := by
    intro p hpar
    rw [hold p (hp p hpar), if_pos (Option.mem_def.1 hpar)]
  refine ⟨?_, congrArg TableNode.table hself, congrArg TableNode.parent hself, congrArg TableNode.children hself, hsame,
    ?_, ?_, ?_⟩
  · intro n hn
    rw [addNode_eq]
    exact hwf.has_node hz hn
  · intro n hn hpar
    rw [hold n hn, if_neg hpar]
  · intro p hpar
    rw [hadopted p hpar]
    exact perm_insertChild _ _ _
  · intro p hpar
    -- the node is put among its siblings once it is there, and no table changes after that
    have hins : ∀ n ∈ z.nodes, (ctx.insert .node { tree, table, parent }).2.nodes.get n = ctx.nodes.get n := fun n hn =>
      Arena.get_of_get? _ ((record?_insert_of_has _ (hwf.has_node hz hn)).trans (hwf.record?_get hz hn))
    have hinsSelf : (ctx.insert .node { tree, table, parent }).2.nodes.get (ctx.addNode tree table parent).1 =
        { tree, table, parent } := by
      rw [addNode_eq]
      exact Arena.get_of_get? _ (record?_insert_self ctx _)
    have hsiblings : ∀ m ∈ (ctx.nodes.get p).children, m ∈ z.nodes := fun m hm => ((h.children p (hp p hpar) m).1 hm).1
    have htable : ∀ m, m = (ctx.addNode tree table parent).1 ∨ m ∈ (ctx.nodes.get p).children →
        ((ctx.addNode tree table parent).2.nodes.get m).table =
          ((ctx.insert .node { tree, table, parent }).2.nodes.get m).table := by
      rintro m (rfl | hm)
      · rw [hself, hinsSelf]
      · rw [(hsame m (hsiblings m hm)).1, hins m (hsiblings m hm)]
    have hbefore : (ctx.nodes.get p).children.Pairwise fun a b =>
        ((ctx.insert .node { tree, table, parent }).2.nodes.get a).table.ordinal ≤
          ((ctx.insert .node { tree, table, parent }).2.nodes.get b).table.ordinal := by
      refine (h.ordered p (hp p hpar)).imp_of_mem fun ha hb hle => ?_
      rwa [hins _ (hsiblings _ ha), hins _ (hsiblings _ hb)]
    have hafter := pairwise_insertChild (n := (ctx.addNode tree table parent).1) hbefore
    rw [hinsSelf] at hafter
    rw [hadopted p hpar]
    refine hafter.imp_of_mem fun ha hb hle => ?_
    rwa [htable _ (mem_insertChild.1 ha), htable _ (mem_insertChild.1 hb)]

/-- A node is added for a new table of the hierarchy, below the node of the parent table. -/
theorem Hangs.addNode (h : ctx.Hangs T) (hwf : ctx.WellFormed) (hz : ctx.record? tree = some z) (hT : T table)
    (hnew : table ∉ z.tables ctx) (hsame : ∀ a ∈ z.tables ctx, a.SameHierarchy table) (hp : ∀ p ∈ parent, p ∈ z.nodes)
    (habove : parent.map (fun p => (ctx.nodes.get p).table) = table.parent?) : (ctx.addNode tree table parent).2.Hangs T := by
  have hphas : ∀ p ∈ parent, ctx.Has p := fun p hp' => hwf.has_node hz (hp p hp')
  intro t z' hz'
  rcases record?_tree_addNode hz' with ⟨hne, hz'⟩ | ⟨rfl, w, hw, rfl⟩
  · refine (h t z' hz').congr fun n hn => ?_
    rw [get_addNode_of_has tree table hphas (hwf.has_node hz' hn), if_neg ?_]
    · exact ⟨rfl, rfl, rfl⟩
    · intro hpar
      have hn' := hwf.record?_get hz' hn
      exact hne ((hwf.shaped.own t z' n _ hz' hn hn').symm.trans (hwf.shaped.own tree z n _ hz (hp n hpar) hn'))
  · cases hz.symm.trans hw
    exact (h t z hz).of_gains (gains_addNode table (h t z hz) hwf hz hp) hT hnew hsame hp habove

/-! ## Asking for nodes -/

/-- The tables that have a node in a tree. -/
def tablesOf (ctx : Context) (tree : TreeId) : List Catalog.Table := (ctx.trees.get tree).tables ctx

/-- A tree of the context is where its reference leads. -/
theorem record?_get_tree (ht : ctx.Has tree) : ctx.record? tree = some (ctx.trees.get tree) := by
  obtain ⟨z, hz⟩ := exists_record? ht
  have hget : ctx.trees.get tree = z := Arena.get_of_get? _ hz
  rw [hz, hget]

/-- A tree has a node for a table. -/
def Finds (ctx : Context) (tree : TreeId) (n : NodeId) (table : Catalog.Table) : Prop :=
  n ∈ (ctx.trees.get tree).nodes ∧ (ctx.nodes.get n).table = table

/-- The node that is found for a table is the one of the tree with that table. -/
theorem finds_of_findNode? (hT : Catalog.Table.Identified T) (h : ctx.Hangs T) (ht : ctx.Has tree) (htable : T table)
    {n : NodeId} (hf : ctx.findNode? tree table = some n) : ctx.Finds tree n table := by
  have hmem := List.mem_of_find?_eq_some hf
  have hsame := List.find?_some hf
  refine ⟨hmem, hT.ids _ _ ?_ htable (by simpa [Catalog.Table.same] using hsame)⟩
  exact (h tree _ (record?_get_tree ht)).tables _ (List.mem_map_of_mem hmem)

/-- If no node is found for a table, the tree does not have the table. -/
theorem not_mem_tablesOf_of_findNode? (hf : ctx.findNode? tree table = none) : table ∉ ctx.tablesOf tree := by
  intro hmem
  obtain ⟨n, hn, rfl⟩ := List.mem_map.1 hmem
  have hne := List.find?_eq_none.1 hf n hn
  simp [Catalog.Table.same] at hne

/-- After a node was added, the tree has one more table. -/
theorem Hangs.finds_addNode (h : ctx.Hangs T) (hwf : ctx.WellFormed) (ht : ctx.Has tree) (table : Catalog.Table)
    (parent : Option NodeId) (hp : ∀ p ∈ parent, p ∈ (ctx.trees.get tree).nodes) :
    (ctx.addNode tree table parent).2.Finds tree (ctx.addNode tree table parent).1 table ∧
      (ctx.addNode tree table parent).2.tablesOf tree = ctx.tablesOf tree ++ [table] := by
  have hz := record?_get_tree ht
  have hg := gains_addNode table (h tree _ hz) hwf hz hp
  have hget : (ctx.addNode tree table parent).2.trees.get tree =
      listNode (ctx.addNode tree table parent).1 parent (ctx.trees.get tree) := by
    rcases record?_tree_addNode (record?_get_tree (has_addNode ht)) with ⟨hne, -⟩ | ⟨-, w, hw, heq⟩
    · exact absurd rfl hne
    · cases hz.symm.trans hw
      exact heq
  refine ⟨⟨?_, hg.newTable⟩, ?_⟩
  · rw [hget]
    exact List.mem_append_right _ (List.mem_singleton.2 rfl)
  · rw [tablesOf, hget]
    exact hg.tables

/-- A tree is asked for a table of its hierarchy: its node is found, or made after those of the tables above it. -/
theorem Hangs.nodeFor (hT : Catalog.Table.Identified T) (h : ctx.Hangs T) (hwf : ctx.WellFormed) (ht : ctx.Has tree)
    (htable : T table) (hsame : ∀ a ∈ ctx.tablesOf tree, a.SameHierarchy table) :
    (ctx.nodeFor tree table).2.Hangs T ∧ (ctx.nodeFor tree table).2.Finds tree (ctx.nodeFor tree table).1 table ∧
      ∀ a ∈ (ctx.nodeFor tree table).2.tablesOf tree, a ∈ ctx.tablesOf tree ∨ a.depth ≤ table.depth := by
  induction table with
  | root info =>
    unfold Context.nodeFor
    split
    · rename_i n hn
      exact ⟨h, finds_of_findNode? hT h ht htable hn, fun a ha => Or.inl ha⟩
    · rename_i hnone
      obtain ⟨hfinds, htables⟩ := h.finds_addNode hwf ht (.root info) none nofun
      refine ⟨h.addNode hwf (record?_get_tree ht) htable (not_mem_tablesOf_of_findNode? hnone) hsame nofun rfl, hfinds, ?_⟩
      rw [htables]
      intro a ha
      exact (List.mem_append.1 ha).imp_right fun ha => Nat.le_of_eq (congrArg _ (List.mem_singleton.1 ha))
  | child info key above ih =>
    unfold Context.nodeFor
    split
    · rename_i n hn
      exact ⟨h, finds_of_findNode? hT h ht htable hn, fun a ha => Or.inl ha⟩
    · rename_i hnone
      have hhead := Catalog.Table.head?_ancestors_child info key above
      obtain ⟨h₁, hfound, hdepth⟩ := ih (hT.parents _ _ htable rfl) fun a ha => (hsame a ha).trans hhead
      have hwf₁ := (hwf.nodeFor ht above).1
      have ht₁ : (ctx.nodeFor tree above).2.Has tree := has_nodeFor ht above
      have hp : ∀ p ∈ some (ctx.nodeFor tree above).1, p ∈ ((ctx.nodeFor tree above).2.trees.get tree).nodes := by
        rintro p hp
        obtain rfl : (ctx.nodeFor tree above).1 = p := Option.some.inj hp
        exact hfound.1
      -- The nodes that were made on the way up are of tables above this one, which has the greatest depth of its chain.
      have hnew : Catalog.Table.child info key above ∉ (ctx.nodeFor tree above).2.tablesOf tree := by
        intro hmem
        rcases hdepth _ hmem with hmem | hle
        · exact not_mem_tablesOf_of_findNode? hnone hmem
        · exact Nat.not_succ_le_self _ hle
      have hsame₁ : ∀ a ∈ (ctx.nodeFor tree above).2.tablesOf tree, a.SameHierarchy (.child info key above) := by
        intro a ha
        have habove : above ∈ (ctx.nodeFor tree above).2.tablesOf tree := List.mem_map.2 ⟨_, hfound.1, hfound.2⟩
        exact ((h₁ tree _ (record?_get_tree ht₁)).hierarchy a ha above habove).trans hhead.symm
      obtain ⟨hfinds, htables⟩ := h₁.finds_addNode hwf₁ ht₁ (.child info key above) _ hp
      refine ⟨h₁.addNode hwf₁ (record?_get_tree ht₁) htable hnew hsame₁ hp (congrArg some hfound.2), hfinds, ?_⟩
      rw [htables]
      intro a ha
      rcases List.mem_append.1 ha with ha | ha
      · exact (hdepth a ha).imp_right Nat.le_succ_of_le
      · exact Or.inr (Nat.le_of_eq (congrArg _ (List.mem_singleton.1 ha)))

end Context

end ClusterPlan
