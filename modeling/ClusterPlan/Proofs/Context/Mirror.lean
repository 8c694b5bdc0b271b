import ClusterPlan.Proofs.Context.Placing
import Mathlib.Logic.Relation

/-!
# Trees mirror the hierarchy of tables

What `Tidy` keeps, said of each tree and of each node as it is met in a context (`Context.Mirrored`). The parents above a node
are then the nodes of the tables above its table, which ids alone decide (`TableTree.Hangs.above_iff`).
-/

namespace ClusterPlan

namespace Context

/-- A node has another one as its parent. -/
def IsParent (ctx : Context) (n p : NodeId) : Prop := (ctx.nodes.get n).parent = some p

end Context

namespace TableTree

open Relation

variable {T : Catalog.Table → Prop} {ctx : Context} {z : TableTree}

/-- Nodes of one table are one node. -/
theorem Hangs.eq_of_id (h : z.Hangs T ctx) (hT : Catalog.Table.Identified T) {n m : NodeId} (hn : n ∈ z.nodes)
    (hm : m ∈ z.nodes) (hid : (ctx.nodes.get n).table.id = (ctx.nodes.get m).table.id) : n = m := by
  have htable := hT.ids _ _ (h.tables _ (List.mem_map_of_mem hn)) (h.tables _ (List.mem_map_of_mem hm)) hid
  exact List.inj_on_of_nodup_map h.unique hn hm htable

/-- The parents above a node, itself included, are the nodes of the tables above its table. -/
theorem Hangs.above_iff (h : z.Hangs T ctx) (hT : Catalog.Table.Identified T) {n m : NodeId} (hn : n ∈ z.nodes)
    (hm : m ∈ z.nodes) : ReflTransGen ctx.IsParent n m ↔
      (ctx.nodes.get m).table.isAncestorOf (ctx.nodes.get n).table = true := by
  constructor
  · intro hnm
    induction hnm using ReflTransGen.head_induction_on with
    | refl => exact Catalog.Table.isAncestorOf_self _
    | @head n p hp _ ih =>
      have habove := h.above n hn
      rw [show (ctx.nodes.get n).parent = some p from hp, Option.map_some] at habove
      exact Catalog.Table.isAncestorOf_of_parent? habove.symm (ih (h.parent n hn p hp).1)
  · -- the node of the parent table is the parent of the node, so this goes up with the tables
    intro hanc
    generalize ht : (ctx.nodes.get n).table = t at hanc
    induction t generalizing n with
    | root info =>
      rcases Catalog.Table.isAncestorOf_cases hanc with hid | ⟨_, hp, -⟩
      · rw [h.eq_of_id hT hm hn (by rw [hid, ht])]
      · cases hp
    | child info key parent ih =>
      rcases Catalog.Table.isAncestorOf_cases hanc with hid | ⟨_, hp, hanc⟩
      · rw [h.eq_of_id hT hm hn (by rw [hid, ht])]
      · cases hp
        have habove := h.above n hn
        rw [ht, Catalog.Table.parent?, Option.map_eq_some_iff] at habove
        obtain ⟨p, hp, htable⟩ := habove
        exact .head hp (ih (h.parent n hn p hp).1 htable hanc)

end TableTree

/-! ## Mirrored contexts -/

/-- A tree of a context mirrors the hierarchy of its tables. -/
structure TableTree.Mirrors (ctx : Context) (tree : TreeId) (z : TableTree) : Prop where
  /-- The nodes of the tree stand in its list, each once. -/
  listed : ∀ (n : NodeId), n ∈ z.nodes ↔ ∃ x, ctx.record? n = some x ∧ x.tree = tree
  distinct : z.nodes.Nodup
  tables : ∀ n ∈ z.nodes, ∀ m ∈ z.nodes, (ctx.nodes.get n).table.id = (ctx.nodes.get m).table.id → n = m
  /-- A node comes after its parent. -/
  order : ∀ before n after, z.nodes = before ++ n :: after → ∀ p, ctx.IsParent n p → p ∈ before
  /-- The parent of a node is the node of the parent table. -/
  parent : ∀ n ∈ z.nodes, (ctx.nodes.get n).parent.map (fun p => (ctx.nodes.get p).table) = (ctx.nodes.get n).table.parent?
  root : ∀ n, z.root = some n ↔ n ∈ z.nodes ∧ (ctx.nodes.get n).parent = none
  /-- The children of a node are the nodes whose parent it is, each once, in the order of their ordinals. -/
  children : ∀ n ∈ z.nodes, (ctx.nodes.get n).children.Nodup ∧
    (∀ m : NodeId, m ∈ (ctx.nodes.get n).children ↔ ctx.Has m ∧ ctx.IsParent m n) ∧
    (ctx.nodes.get n).children.Pairwise fun a b => (ctx.nodes.get a).table.ordinal ≤ (ctx.nodes.get b).table.ordinal
  /-- The uses of a node are the sources on it, each once. -/
  uses : ∀ n ∈ z.nodes, (ctx.nodes.get n).uses.Nodup ∧
    ∀ r : SourceId, r ∈ (ctx.nodes.get n).uses ↔ ∃ y : TableSource, ctx.record? r = some y ∧ y.node = n
  /-- The parents above a node, itself included, are the nodes of the tables above its table. -/
  above : ∀ n ∈ z.nodes, ∀ m ∈ z.nodes, Relation.ReflTransGen ctx.IsParent n m ↔
    (ctx.nodes.get m).table.isAncestorOf (ctx.nodes.get n).table = true

namespace Context

variable {T : Catalog.Table → Prop} {ctx : Context} {tree : TreeId} {z : TableTree}

/-- Each node belongs to a tree, and all trees mirror the hierarchies of their tables. -/
structure Mirrored (ctx : Context) : Prop where
  tree : ∀ n : NodeId, ctx.Has n → ctx.Has (ctx.nodes.get n).tree
  mirrors : ∀ (tree : TreeId) z, ctx.record? tree = some z → z.Mirrors ctx tree

/-- A tree lists exactly the nodes that name it as their tree. -/
theorem mem_nodes_iff (h : ctx.WellFormed) (hz : ctx.record? tree = some z) (n : NodeId) :
    n ∈ z.nodes ↔ ∃ x, ctx.record? n = some x ∧ x.tree = tree := by
  constructor
  · intro hn
    have hx := h.record?_get hz hn
    exact ⟨_, hx, h.shaped.own tree z n _ hz hn hx⟩
  · rintro ⟨x, hx, rfl⟩
    exact h.shaped.listed n x z hx hz

/-- A tidy tree mirrors the hierarchy of its tables. -/
theorem Tidy.mirrors (h : ctx.Tidy T []) (hT : Catalog.Table.Identified T) (hz : ctx.record? tree = some z) :
    z.Mirrors ctx tree := by
  have hz' := h.hangs tree z hz
  refine ⟨mem_nodes_iff h.wellFormed hz, h.wellFormed.shaped.distinct tree z hz,
    fun n hn m hm hid => hz'.eq_of_id hT hn hm hid, ?_, hz'.above, hz'.root, ?_, ?_, fun n hn m hm => hz'.above_iff hT hn hm⟩
  · intro before n after heq p hp
    have hn : n ∈ z.nodes := by simp [heq]
    obtain ⟨hmem, hlt⟩ := hz'.parent n hn p hp
    have hsorted := hz'.sorted
    rw [heq, List.pairwise_append, List.pairwise_cons] at hsorted
    rw [heq, List.mem_append, List.mem_cons] at hmem
    rcases hmem with hp | rfl | hp
    · exact hp
    · exact absurd hlt (Nat.lt_irrefl _)
    · exact absurd hlt (Nat.lt_asymm (hsorted.2.1.1 p hp))
  · intro n hn
    refine ⟨hz'.distinct n hn, fun m => ?_, hz'.ordered n hn⟩
    rw [hz'.children n hn]
    constructor
    · rintro ⟨hm, hp⟩
      exact ⟨h.wellFormed.has_node hz hm, hp⟩
    · -- a node is in the tree that its parent is in
      rintro ⟨hm, hp⟩
      obtain ⟨x, hx⟩ := exists_record? hm
      have hget : ctx.nodes.get m = x := Arena.get_of_get? _ hx
      rw [IsParent, hget] at hp
      have hn' := h.wellFormed.record?_get hz hn
      have hsame := h.wellFormed.shaped.kin m x hx n (by simp [hp]) _ hn'
      rw [h.wellFormed.shaped.own tree z n _ hz hn hn'] at hsame
      refine ⟨(mem_nodes_iff h.wellFormed hz m).2 ⟨x, hx, hsame.symm⟩, ?_⟩
      rw [hget, hp]
  · intro n hn
    obtain ⟨hnodup, huses⟩ := h.placed n _ (h.wellFormed.record?_get hz hn)
    refine ⟨hnodup, fun r => (huses r).trans ?_⟩
    simp only [List.not_mem_nil, not_false_eq_true, true_and]

/-- In a tidy context every tree mirrors the hierarchy of its tables. -/
theorem Tidy.mirrored (h : ctx.Tidy T []) (hT : Catalog.Table.Identified T) : ctx.Mirrored := by
  refine ⟨fun n hn => ?_, fun tree z hz => h.mirrors hT hz⟩
  obtain ⟨x, hx⟩ := exists_record? hn
  have hget : ctx.nodes.get n = x := Arena.get_of_get? _ hx
  rw [hget]
  exact h.wellFormed.has_tree hx

end Context

end ClusterPlan
