import ClusterPlan.Proofs.Context.Placing

/-!
# How trees grow

A tree that is asked for a table gets nodes at the end of its list for the table and for those above it that it has no node for
(`tablesOf_nodeFor`). Nothing else changes the tables of a tree.
-/

namespace ClusterPlan

/-- What a reference leads to is told by the record that there is. -/
theorem Arena.get_congr {kind : EntityKind} {α : Type} [Inhabited α] {a a' : Arena kind α} {r : Ref kind}
    (h : a'.get? r = a.get? r) : a'.get r = a.get r :=
  congrArg (Option.getD · default) h

namespace Context

variable {ctx ctx' : Context} {t tree : TreeId} {table : Catalog.Table} {parent : Option NodeId}

/-- The table at a place of a tree is that of the node at this place. -/
theorem getElem?_tablesOf (ctx : Context) (t : TreeId) (i : Nat) :
    (ctx.tablesOf t)[i]? = ((ctx.trees.get t).nodes[i]?).map fun n => (ctx.nodes.get n).table :=
  List.getElem?_map

/-- A tree with the same list, whose nodes are for the same tables. -/
theorem tablesOf_congr (htree : ctx'.record? t = ctx.record? t)
    (hnodes : ∀ n ∈ (ctx.trees.get t).nodes, (ctx'.nodes.get n).table = (ctx.nodes.get n).table) :
    ctx'.tablesOf t = ctx.tablesOf t := by
  have hget : ctx'.trees.get t = ctx.trees.get t := Arena.get_congr htree
  rw [tablesOf, tablesOf, TableTree.tables, TableTree.tables, hget]
  exact List.map_congr_left hnodes

/-- A tree whose nodes and their tables stay has the same tables. -/
theorem tablesOf_of_sameTrees (hwf' : ctx'.WellFormed) (hs : ctx.SameTrees ctx') (ht : ctx'.Has t) :
    ctx'.tablesOf t = ctx.tablesOf t := by
  refine tablesOf_congr (hs.1 t) fun n hn => ?_
  have hget : ctx'.trees.get t = ctx.trees.get t := Arena.get_congr (hs.1 t)
  rw [← hget] at hn
  obtain ⟨x, hx, heq⟩ := hs.2 n _ (hwf'.record?_get (record?_get_tree ht) hn)
  have hnode : ctx.nodes.get n = x := Arena.get_of_get? _ hx
  rw [heq, hnode]

/-- Where all places stay, the trees are the same. -/
theorem SamePlaces.sameTrees (h : ctx.SamePlaces ctx') : ctx.SameTrees ctx' :=
  ⟨h.trees, fun n y hy => ⟨y, (h.nodes n).symm.trans hy, rfl⟩⟩

/-- A node is added at the end of the list of its tree. -/
theorem tablesOf_addNode (hwf : ctx.WellFormed) (hp : ∀ p ∈ parent, ctx.Has p) (ht : ctx.Has t) :
    (ctx.addNode tree table parent).2.tablesOf t = ctx.tablesOf t ++ if t = tree then [table] else [] := by
  have hold : ∀ n ∈ (ctx.trees.get t).nodes,
      ((ctx.addNode tree table parent).2.nodes.get n).table = (ctx.nodes.get n).table := by
    intro n hn
    rw [get_addNode_of_has tree table hp (hwf.has_node (record?_get_tree ht) hn)]
    split <;> rfl
  have hhas : (ctx.addNode tree table parent).2.Has t := has_addNode ht
  rcases record?_tree_addNode (record?_get_tree hhas) with
    ⟨hne, hsame⟩ | ⟨rfl, w, hw, hlist⟩
  · rw [if_neg hne, List.append_nil]
    exact tablesOf_congr ((record?_get_tree hhas).trans hsame.symm) hold
  · have hget : ctx.trees.get t = w := Arena.get_of_get? _ hw
    rw [if_pos rfl, tablesOf, tablesOf, TableTree.tables, TableTree.tables, hlist, listNode, List.map_append, ← hget,
      List.map_congr_left hold, List.map_singleton, get_addNode_self t table hp]

/-- The tables that get a node in a tree when it is asked for a table: those above it come first. -/
def missing (ctx : Context) (tree : TreeId) : Catalog.Table → List Catalog.Table
  | .root info => if (ctx.findNode? tree (.root info)).isSome then [] else [.root info]
  | .child info key above =>
    if (ctx.findNode? tree (.child info key above)).isSome then [] else ctx.missing tree above ++ [.child info key above]

/-- The tables of a tree after a tree was asked for a table. -/
theorem tablesOf_nodeFor (hwf : ctx.WellFormed) (htree : ctx.Has tree) (table : Catalog.Table) (ht : ctx.Has t) :
    (ctx.nodeFor tree table).2.tablesOf t = ctx.tablesOf t ++ if t = tree then ctx.missing tree table else [] := by
  induction table with
  | root info =>
    unfold Context.nodeFor missing
    cases ctx.findNode? tree (.root info) with
    | some n => simp
    | none => exact tablesOf_addNode hwf (fun _ hp => by cases hp) ht
  | child info key above ih =>
    unfold Context.nodeFor missing
    cases ctx.findNode? tree (.child info key above) with
    | some n => simp
    | none =>
      obtain ⟨hwf₁, hin⟩ := hwf.nodeFor htree above
      have hp : ∀ p ∈ some (ctx.nodeFor tree above).1, (ctx.nodeFor tree above).2.Has p := by
        rintro p hp
        obtain rfl : (ctx.nodeFor tree above).1 = p := Option.some.inj hp
        exact hin.has
      refine (tablesOf_addNode hwf₁ hp (has_nodeFor ht above)).trans ?_
      rw [ih, List.append_assoc]
      split <;> simp

end Context

end ClusterPlan
